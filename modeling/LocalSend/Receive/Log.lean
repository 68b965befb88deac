import LocalSend.Lib.Run
import LocalSend.Receive.World
import Mathlib.Data.List.DropRight

/-!
# What the log says

The log read back: the prepare-upload the transfer was begun for, the session that is open, and
the part of the log since either.
-/

set_option autoImplicit false

namespace LocalSend

/-- A prepare-upload that became the transfer. -/
structure Asked where
  conn : ConnId
  request : HttpConnection
  peer : DeviceInfo
  files : List FileEntry

structure Session where
  id : QString
  address : QString
  tokens : AList fun _ : QString => QString

namespace Effect

@[simp] def asked? : Effect → Option Asked
  | .begun i request peer files => some ⟨i, request, peer, files⟩
  | _ => none

/-- What the entry makes of the session: none of its business, opened, or over. A session without
an id (the random source failed) is none. -/
@[simp] def session? : Effect → Option (Option Session)
  | .issued id address tokens => some (if id = [] then none else some ⟨id, address, tokens⟩)
  | .ended => some none
  | _ => none

def doneRow? : Effect → Option Nat
  | .fileStatus row .done => some row
  | _ => none

def stored? : Effect → Option (Nat × QByteArray)
  | .stored _ row _ content => some (row, content)
  | _ => none

end Effect

namespace Log

/-- The prepare-upload the transfer was last begun for. -/
def asked (log : List Effect) : Option Asked := Lib.last? Effect.asked? log

/-- A session was opened under this id and with these tokens, for the prepare-upload of `i`. -/
def Issued (log : List Effect) (id : QString) (tokens : AList fun _ : QString => QString)
    (i : ConnId) : Prop :=
  ∃ pre address post a, log = pre ++ .issued id address tokens :: post ∧
    asked pre = some a ∧ a.conn = i

/-- The session that is open after the log. -/
def session (log : List Effect) : Option Session := (Lib.last? Effect.session? log).join

/-- What was done since the transfer was last begun. -/
def sinceBegun (log : List Effect) : List Effect := log.rtakeWhile fun e => e.asked?.isNone

/-- The rows that became done since then, in this order. -/
def doneRows (log : List Effect) : List Nat := (sinceBegun log).filterMap Effect.doneRow?

/-- The files that were completed since then, with their rows. -/
def storedFiles (log : List Effect) : List (Nat × QByteArray) :=
  (sinceBegun log).filterMap Effect.stored?

/-- The rows of `a` that are done. -/
def completed (log : List Effect) (a : Asked) : List Nat :=
  (List.range a.files.length).filter fun row => row ∈ doneRows log

/-- What was done since a session was last opened or ended. -/
def sinceIssued (log : List Effect) : List Effect := log.rtakeWhile fun e => e.session?.isNone

@[simp] theorem asked_concat (log : List Effect) (e : Effect) :
    asked (log ++ [e]) = e.asked?.or (asked log) := Lib.last?_concat _ _ _

theorem mem_of_asked {log : List Effect} {a : Asked} (h : asked log = some a) :
    Effect.begun a.conn a.request a.peer a.files ∈ log := by
  obtain ⟨e, hmem, he⟩ := Lib.exists_of_last? h
  cases e with
  | begun i request peer files =>
    obtain rfl := Option.some.inj he
    exact hmem
  | _ => cases he

@[simp] theorem session_concat (log : List Effect) (e : Effect) :
    session (log ++ [e]) = e.session?.getD (session log) := by
  rw [session, Lib.last?_concat, session]
  cases e.session? <;> rfl

@[simp] theorem sinceBegun_concat (log : List Effect) (e : Effect) : sinceBegun (log ++ [e]) =
    if e.asked?.isNone = true then sinceBegun log ++ [e] else [] := by
  unfold sinceBegun
  rw [List.rtakeWhile_concat]

theorem doneRows_concat (log : List Effect) (e : Effect) : doneRows (log ++ [e]) =
    if e.asked?.isNone = true then doneRows log ++ e.doneRow?.toList else [] := by
  rw [doneRows, sinceBegun_concat]
  split
  · rw [List.filterMap_append, ← doneRows]
    cases h : e.doneRow? <;> simp [h]
  · rfl

theorem storedFiles_concat (log : List Effect) (e : Effect) : storedFiles (log ++ [e]) =
    if e.asked?.isNone = true then storedFiles log ++ e.stored?.toList else [] := by
  rw [storedFiles, sinceBegun_concat]
  split
  · rw [List.filterMap_append, ← storedFiles]
    cases h : e.stored? <;> simp [h]
  · rfl

@[simp] theorem sinceIssued_concat (log : List Effect) (e : Effect) : sinceIssued (log ++ [e]) =
    if e.session?.isNone = true then sinceIssued log ++ [e] else [] := by
  unfold sinceIssued
  rw [List.rtakeWhile_concat]

/-- An open session was issued, and nothing has been said of sessions since. -/
theorem session_split {log : List Effect} {s : Session} (h : session log = some s) : s.id ≠ [] ∧
    ∃ before, log = before ++ .issued s.id s.address s.tokens :: sinceIssued log := by
  induction log using List.reverseRecOn with
  | nil => cases h
  | append_singleton log e ih =>
    rw [session_concat] at h
    rw [sinceIssued_concat]
    rcases hs : e.session? with - | s'
    · rw [hs] at h
      obtain ⟨hid, before, hb⟩ := ih h
      refine ⟨hid, before, ?_⟩
      rw [if_pos Option.isNone_none, ← List.cons_append, ← List.append_assoc, ← hb]
    · rw [hs] at h
      obtain rfl : s' = some s := h
      cases e with
      | issued id address tokens =>
        simp only [Effect.session?, Option.some.injEq] at hs
        split at hs
        · cases hs
        · rename_i hid
          obtain rfl := Option.some.inj hs
          exact ⟨hid, log, rfl⟩
      | _ => simp at hs

theorem session?_of_mem_sinceIssued {log : List Effect} {e : Effect} (h : e ∈ sinceIssued log) :
    e.session? = none := by
  simpa using List.mem_rtakeWhile_imp h

end Log

end LocalSend
