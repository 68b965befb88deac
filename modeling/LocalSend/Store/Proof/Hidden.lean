import LocalSend.Models.Proof.Devices
import LocalSend.Qt.Ascii
import LocalSend.Store.Catalogue

/-!
# The device list and the blocks

The list asks for a block when a device is announced, and a change of the record only has the rows
repainted. So no row is of a blocked device as long as no listed device is blocked
(`blocked_hidden_iff`): one that is stays, until it is announced again under the same spelling.
-/

set_option autoImplicit false

namespace LocalSend

/-- The device list, and the record it asks. -/
structure Neighbours where
  devices : DeviceModel
  known : KnownDevices

namespace Neighbours

inductive Change
  | upsert (now : Nat) (device : DeviceInfo)
  | remove (fingerprint : QString)
  | prune (now maxAgeSeconds : Nat)
  | clear
  | edit (now : Nat) (e : KnownDevices.Edit)

variable [Qt] {s : Neighbours}

def next (s : Neighbours) : Change → Neighbours
  | .upsert now device => { s with devices := (s.devices.upsert s.known now device).2 }
  | .remove fingerprint => { s with devices := s.devices.remove fingerprint }
  | .prune now maxAgeSeconds => { s with devices := s.devices.prune now maxAgeSeconds }
  | .clear => { s with devices := s.devices.clear }
  | .edit now e => { s with known := e.apply now s.known }

/-- Nothing is listed yet; the record is as it was saved. -/
def system : Lib.System Neighbours Change := ⟨fun s => s.devices = ⟨[]⟩, next⟩

/-- No row is of a blocked device. -/
def Hidden (s : Neighbours) : Prop := ∀ d ∈ s.devices.devices, s.known.isBlocked d.fingerprint = false

/-- A device that is blocked is not listed, under any spelling of its fingerprint. -/
def Unlisted (s : Neighbours) : Change → Prop
  | .edit _ (.setBlocked fingerprint _ true) => fingerprint ≠ [] → ∀ d ∈ s.devices.devices,
      d.fingerprint ≠ [] → Qt.toUpper d.fingerprint ≠ Qt.toUpper fingerprint
  | _ => True

/-! ## Blocks -/

/-- A setter blocks a fingerprint that was free only if it is `setBlocked` for it. -/
theorem isBlocked_apply (now : Nat) (known : KnownDevices) (e : KnownDevices.Edit)
    (fingerprint : QString) : (e.apply now known).isBlocked fingerprint =
      (fingerprint ≠ [] && (e.block? (Qt.toUpper fingerprint)).getD
        (known.entryOf fingerprint).blocked) := by
  have hflag := (KnownDevices.on_apply now known e (Qt.toUpper fingerprint)).1
  exact congrArg (decide (fingerprint ≠ []) && ·) hflag

/-- What a change of the record does to the rows. -/
theorem Hidden.edit_iff (h : s.Hidden) (now : Nat) (e : KnownDevices.Edit) :
    (s.next (.edit now e)).Hidden ↔ s.Unlisted (.edit now e) := by
  have hkeep : (∀ key, e.block? key ≠ some true) → (s.next (.edit now e)).Hidden := by
    intro hno d hd
    have hold := h d hd
    unfold KnownDevices.isBlocked at hold
    change (e.apply now s.known).isBlocked d.fingerprint = false
    rw [isBlocked_apply]
    cases hb : e.block? (Qt.toUpper d.fingerprint) with
    | none => exact hold
    | some b =>
      cases b with
      | false => exact Bool.and_false _
      | true => exact absurd hb (hno _)
  cases e with
  | remember fingerprint aliasName => exact iff_of_true (hkeep fun _ => nofun) trivial
  | forget fingerprint => exact iff_of_true (hkeep fun _ => nofun) trivial
  | forgetAll => exact iff_of_true (hkeep fun _ => nofun) trivial
  | setBlocked fingerprint aliasName blocked =>
    cases blocked with
    | false =>
      refine iff_of_true (hkeep fun key hkey => ?_) trivial
      simp only [KnownDevices.Edit.block?] at hkey
      split at hkey
      · cases hkey
      · cases hkey
    | true =>
      -- the block is of the rows whose fingerprint it folds to
      have hrow : ∀ d ∈ s.devices.devices,
          ((KnownDevices.Edit.setBlocked fingerprint aliasName true).apply now s.known).isBlocked
            d.fingerprint = false ↔
          (fingerprint ≠ [] → d.fingerprint ≠ [] →
            Qt.toUpper d.fingerprint ≠ Qt.toUpper fingerprint) := by
        intro d hd
        have hold := h d hd
        unfold KnownDevices.isBlocked at hold
        rw [isBlocked_apply]
        simp only [KnownDevices.Edit.block?]
        by_cases hsame : fingerprint ≠ [] ∧ Qt.toUpper fingerprint = Qt.toUpper d.fingerprint
        · rw [if_pos hsame]
          simp [hsame.1, hsame.2]
        · rw [if_neg hsame, Option.getD_none]
          refine iff_of_true hold fun hf _ heq => hsame ⟨hf, heq.symm⟩
      constructor
      · intro hhidden hf d hd
        exact (hrow d hd).1 (hhidden d hd) hf
      · intro hunlisted d hd
        exact (hrow d hd).2 fun hf => hunlisted hf d hd

/-- One step hides what was hidden if and only if it blocks no listed device. -/
theorem Hidden.next_iff (h : s.Hidden) (c : Change) : (s.next c).Hidden ↔ s.Unlisted c := by
  cases c with
  | upsert now device =>
    refine iff_of_true (fun d hd => ?_) trivial
    rcases DeviceModel.mem_upsert hd with hd | ⟨hlists, rfl⟩
    · exact h d hd
    · exact hlists.1.2.2
  | remove fingerprint =>
    exact iff_of_true (fun d hd => h d ((DeviceModel.remove_sublist _ _).subset hd)) trivial
  | prune now maxAgeSeconds =>
    exact iff_of_true (fun d hd => h d (List.mem_of_mem_filter hd)) trivial
  | clear => exact iff_of_true (fun d hd => absurd hd List.not_mem_nil) trivial
  | edit now e => exact h.edit_iff now e

/-- No state of a run lists a blocked device, if and only if every device the run blocks is not
listed when it does. -/
theorem blocked_hidden_iff {changes : List Change} (hs : system.start s) :
    (∀ before, before <+: changes → (before.foldl next s).Hidden) ↔
      Lib.Allowed system Unlisted s changes := by
  have hstart : s.Hidden := by
    intro d hd
    have hnone : s.devices = ⟨[]⟩ := hs
    rw [hnone] at hd
    exact absurd hd List.not_mem_nil
  exact Lib.always_iff_allowed (S := system) (I := Hidden) (fun s c h => h.next_iff c) hstart changes

end Neighbours

namespace Neighbours

section

local instance listedQt : Qt := Ascii.qt [] []

/-- A device that announces itself with this fingerprint. -/
def announcing (fingerprint : QString) : Change :=
  .upsert 0 { fingerprint := fingerprint, aliasName := str "TV", address := str "192.168.1.9" }

/-- A device is blocked before it comes up, and announces itself twice. -/
def blockedFirst : List Change := [
  .edit 0 (.setBlocked (str "AB12") (str "TV") true),
  announcing (str "ab12"),
  .edit 1 .forgetAll,
  announcing (str "AB12")]

/-- It is not listed, however it is spelled. -/
theorem blocked_before_hidden : (blockedFirst.foldl next ⟨⟨[]⟩, ⟨∅⟩⟩).Hidden := by
  have hall : ∀ before, before <+: blockedFirst → (before.foldl next ⟨⟨[]⟩, ⟨∅⟩⟩).Hidden :=
    (blocked_hidden_iff (show system.start ⟨⟨[]⟩, ⟨∅⟩⟩ from rfl)).2
      ⟨nofun, trivial, trivial, trivial, trivial⟩
  exact hall _ (List.prefix_refl _)

/-- Blocked while it is listed, it stays; announced again with a capital letter less, it still
does. -/
theorem listed_stays :
    let s := [announcing (str "AB12"), .edit 1 (.setBlocked (str "AB12") (str "TV") true),
      announcing (str "ab12")].foldl next ⟨⟨[]⟩, ⟨∅⟩⟩
    s.devices.devices.map (·.fingerprint) = [str "AB12"] ∧
      s.known.isBlocked (str "AB12") = true ∧ ¬ s.Hidden := by
  intro s
  have hrow : s.devices.devices.map (·.fingerprint) = [str "AB12"] := by decide +kernel
  have hblocked : s.known.isBlocked (str "AB12") = true := by decide +kernel
  refine ⟨hrow, hblocked, fun h => ?_⟩
  have hmem : str "AB12" ∈ s.devices.devices.map (·.fingerprint) := by
    rw [hrow]
    exact List.mem_singleton_self _
  obtain ⟨d, hd, hf⟩ := List.mem_map.1 hmem
  rw [← hf] at hblocked
  exact Bool.noConfusion (hblocked.symm.trans (h d hd))

end

end Neighbours

end LocalSend
