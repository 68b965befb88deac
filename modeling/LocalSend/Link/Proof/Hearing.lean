import LocalSend.Receive.Proof.Filed
import LocalSend.Receive.Proof.Sessions
import LocalSend.Receive.Proof.Titles

/-!
# What the receiving side makes of its connections

`Hearing body arrived w`: the invariants of the receiving side together, with what has arrived on
each connection and the body that each is to bring. They are kept by every event, as long as what
arrives is the beginning of a stream that brings this body (`Hearing.step`).
-/

set_option autoImplicit false

namespace LocalSend.World

section
variable [Qt]

structure Hearing (body arrived : ConnId → QByteArray) (w : World) : Prop where
  inv : w.Inv
  explained : w.Explained .all
  filing : Filing body w
  dealt : w.Dealt
  knows : ∀ i, Knows i (arrived i) w
  titled : ∀ i, Titled i (arrived i) w

variable {body arrived : ConnId → QByteArray} {w : World}

/-- The upload of a request that is in is the body of its stream. -/
theorem Knows.written {i : ConnId} {b data stream d : QByteArray} (hk : Knows i b w) (h : w.Inv)
    (hc : w.Completes i data) (hfront : b ++ data <+: stream)
    (hscan : Judge.lenient.scan stream = ⟨.complete, d⟩) {u : Upload} {f : HashingFile}
    (hu : (w.heard i data).uploads.lookup i = some u) (hf : (w.heard i data).handles i = some f) :
    f.written = d := by
  obtain ⟨d', hread, hdelivered⟩ := (hk.born (born_of_live hc.1)).completes h hc
  obtain ⟨f', hf', rfl⟩ := hdelivered u hu
  obtain rfl := Option.some.inj (hf.symm.trans hf')
  obtain ⟨l, rfl⟩ := hfront
  rw [Judge.complete_append (by rw [hread]), hread] at hscan
  exact congrArg Scan.body hscan

theorem Hearing.step (h : Hearing body arrived w) {e : Event}
    (hstream : ∀ i data, e = .readyRead i data → w.live i = true → ∃ stream,
      arrived i ++ data <+: stream ∧ Judge.lenient.scan stream = ⟨.complete, body i⟩) :
    Hearing body (fun i => arrived i ++ w.brings i e) (w.step e) := by
  have hkept := (step_acts h.inv e (permits_all w e)).keep
    (P := fun v => v.Inv ∧ v.Explained .all)
    (fun ha hv => ⟨ha.inv hv.1, ha.explained hv.1 hv.2⟩) ⟨h.inv, h.explained⟩
  constructor
  case inv => exact hkept.1
  case explained => exact hkept.2
  case filing =>
    refine h.filing.step h.inv h.explained fun i data hdata hc u f hu hf => ?_
    obtain ⟨stream, hfront, hscan⟩ := hstream i data hdata hc.1
    exact (h.knows i).written h.inv hc hfront hscan hu hf
  case dealt => exact h.dealt.step h.inv e
  case knows => exact fun i => (h.knows i).step h.inv e
  case titled => exact fun i => (h.titled i).step (h.knows i) h.inv e

/-- Of connections that are not there yet the body does not matter. -/
theorem Hearing.congr {body' : ConnId → QByteArray} (h : Hearing body arrived w)
    (hb : ∀ i < w.nextConn, body' i = body i) : Hearing body' arrived w :=
  { h with filing := h.filing.congr hb }

theorem Start.hearing (h : w.Start) : Hearing body (fun _ => []) w where
  inv := h.inv
  explained := h.explained
  filing := h.filing
  dealt := h.dealt
  knows i := run_knows h i []
  titled i hi := by
    rw [h.nextConn] at hi
    exact absurd hi (Nat.not_lt_zero i)

end

end LocalSend.World
