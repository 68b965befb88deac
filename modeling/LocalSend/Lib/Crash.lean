/-!
# Operations that are cut short

A program performs one atomic operation after the other, until one fails; it may be killed between
any two of them. `Survives I ops s`: wherever the program `ops` is killed, `I` holds of what it
leaves behind. The rules go along the program, as those of a logic for programs that crash.
-/

set_option autoImplicit false

namespace LocalSend.Lib

variable {σ α : Type} {perform : α → σ → Bool × σ} {I J : σ → Prop} {op : α} {ops : List α} {s : σ}

/-- One operation after the other, until one fails. -/
def performs (perform : α → σ → Bool × σ) : List α → σ → Bool × σ
  | [], s => (true, s)
  | op :: ops, s =>
    match perform op s with
    | (true, s) => performs perform ops s
    | (false, s) => (false, s)

theorem performs_cons (perform : α → σ → Bool × σ) (op : α) (ops : List α) (s : σ) :
    performs perform (op :: ops) s =
      if (perform op s).1 then performs perform ops (perform op s).2 else perform op s := by
  rw [performs]
  rcases perform op s with ⟨ok, s⟩
  cases ok <;> simp

/-- However many operations it gets to. -/
def Survives (perform : α → σ → Bool × σ) (I : σ → Prop) (ops : List α) (s : σ) : Prop :=
  ∀ n, I (performs perform (ops.take n) s).2

theorem Survives.nil (h : I s) : Survives perform I [] s := by
  intro n
  rw [List.take_nil]
  exact h

/-- The first operation is not reached, or fails, or the program goes on from there. -/
theorem Survives.cons (h : I s) (hfails : (perform op s).1 = false → I (perform op s).2)
    (hgoes : (perform op s).1 = true → Survives perform I ops (perform op s).2) :
    Survives perform I (op :: ops) s := by
  intro n
  cases n with
  | zero => exact h
  | succ n =>
    rw [List.take_succ_cons, performs_cons]
    cases hop : (perform op s).1 with
    | false => exact hfails hop
    | true => exact hgoes hop n

theorem Survives.mono (h : Survives perform I ops s) (hle : ∀ s, I s → J s) :
    Survives perform J ops s := fun n => hle _ (h n)

/-- A program that is not killed is one that gets to all of its operations. -/
theorem Survives.whole (h : Survives perform I ops s) : I (performs perform ops s).2 := by
  have hall := h ops.length
  rwa [List.take_length] at hall

end LocalSend.Lib
