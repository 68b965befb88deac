import Mathlib.Data.List.Basic

/-!
# A value and the copy of it that is stored

A process works on a value and stores it as it goes; the next process starts from what was stored,
or from `blank` when it cannot read that (`Backed.turn`). As long as every process can read and
every change is stored, it is as if one process had made all the changes (`Backed.run_sound`).
Processes that store nothing leave what was stored to the next (`Backed.run_mute`).
-/

set_option autoImplicit false

namespace LocalSend.Lib

/-- The value in memory, and what is stored of it. -/
structure Backed (α : Type) where
  live : α
  kept : α

namespace Backed

variable {α : Type} {blank : α}

inductive Turn (α : Type)
  /-- A process starts, and can read what is stored or cannot. -/
  | start (reads : Bool)
  | change (f : α → α) (stores : Bool)

namespace Turn

/-- The storage did its part. -/
def Sound : Turn α → Prop
  | .start reads => reads = true
  | .change _ stores => stores = true

instance : (t : Turn α) → Decidable t.Sound
  | .start reads => inferInstanceAs (Decidable (reads = true))
  | .change _ stores => inferInstanceAs (Decidable (stores = true))

/-- Nothing is stored. -/
def Mute : Turn α → Prop
  | .start _ => True
  | .change _ stores => stores = false

def change? : Turn α → Option (α → α)
  | .start _ => none
  | .change f _ => some f

end Turn

def turn (blank : α) (b : Backed α) : Turn α → Backed α
  | .start reads => { b with live := if reads then b.kept else blank }
  | .change f stores => ⟨f b.live, if stores then f b.live else b.kept⟩

/-- The value after all the changes, in one go. -/
def changed (turns : List (Turn α)) (a : α) : α :=
  (turns.filterMap Turn.change?).foldl (fun a f => f a) a

theorem changed_append (turns more : List (Turn α)) (a : α) :
    changed (turns ++ more) a = changed more (changed turns a) := by
  unfold changed
  rw [List.filterMap_append, List.foldl_append]

theorem run_sound : ∀ (turns : List (Turn α)) {a : α}, (∀ t ∈ turns, t.Sound) →
    turns.foldl (turn blank) ⟨a, a⟩ = ⟨changed turns a, changed turns a⟩
  | [], _, _ => rfl
  | t :: turns, a, h => by
    obtain ⟨ht, hrest⟩ := List.forall_mem_cons.1 h
    rw [List.foldl_cons]
    cases t with
    | start reads =>
      obtain rfl : reads = true := ht
      exact run_sound turns hrest
    | change f stores =>
      obtain rfl : stores = true := ht
      exact run_sound turns hrest

theorem run_mute : ∀ (turns : List (Turn α)) {b : Backed α}, (∀ t ∈ turns, t.Mute) →
    (turns.foldl (turn blank) b).kept = b.kept
  | [], _, _ => rfl
  | t :: turns, b, h => by
    obtain ⟨ht, hrest⟩ := List.forall_mem_cons.1 h
    rw [List.foldl_cons, run_mute turns hrest]
    cases t with
    | start reads => rfl
    | change f stores =>
      obtain rfl : stores = false := ht
      rfl

end Backed

end LocalSend.Lib
