import LocalSend.Core.SettingsPage
import LocalSend.Qt.Ascii

/-!
# The PIN barrier

A hash on record is of the PIN the user last chose, and as long as the requirement is never on
without one, only that PIN passes (`pin_barred`). The switch puts the requirement on before there is a
PIN, and the dialog that follows can be dismissed (`dismissed_open`).
-/

set_option autoImplicit false

namespace LocalSend

section
variable [Qt]

/-- PBKDF2 gives as many bytes as it is asked for, or fails, and does not collide. -/
structure Crypto.Separates : Prop where
  length : ∀ secret salt iterations n, Qt.pbkdf2 secret salt iterations n = [] ∨
    (Qt.pbkdf2 secret salt iterations n).length = n
  injective : ∀ secret secret' salt iterations n, Qt.pbkdf2 secret salt iterations n ≠ [] →
    Qt.pbkdf2 secret salt iterations n = Qt.pbkdf2 secret' salt iterations n → secret = secret'

namespace SettingsPage

/-- With the requirement on, only the PIN that was last chosen passes. -/
def Barred (w : SettingsPage) : Prop :=
  w.constructed = true → w.settings.pinEnabled = true → ∀ candidate : Text,
    w.settings.checkPin candidate.val = true → w.chosen = some candidate

/-- The requirement is on only with a PIN on record, and no choice of a PIN comes to nothing. -/
def Guarded (w : SettingsPage) : PageEvent → Prop
  | .construct => w.settings.pinEnabled = true →
    if w.legacyPin.val = [] then w.settings.pinIsSet = true
    else w.answers w.legacyPin.val = true
  | .switchPin checked => w.canSwitch = true → checked = true → w.settings.pinIsSet = true
  | .accept text => w.canAccept text.val = true →
    w.answers text.val = true ∨ w.chosen = some text
  | _ => True

/-- The hash on record is of this PIN. -/
def IsOf (s : AppSettings) (pin : Text) : Prop := s.pinSalt ≠ [] ∧
  s.pinHash = Crypto.deriveKey pin.val s.pinSalt PinIterations PinHashBytes

structure Inv (w : SettingsPage) : Prop where
  chosen : w.settings.pinHash ≠ [] → ∃ pin, w.chosen = some pin ∧ IsOf w.settings pin
  enabled : w.constructed = true → w.settings.pinEnabled = true → w.settings.pinHash ≠ []
  dialog : w.dialog = true → w.constructed = true ∧ w.settings.pinEnabled = true
  legacy : w.legacyPin.val ≠ [] → w.constructed = false ∧ w.settings.pinHash = []

omit [Qt] in
theorem setPinEnabled_eq (s : AppSettings) (enabled : Bool) :
    s.setPinEnabled enabled = { s with pinEnabled := enabled } := by
  unfold AppSettings.setPinEnabled
  split
  · rename_i h
    rw [h]
  · rfl

/-- What a PIN that can be stored leaves. -/
theorem setPin_answers {w : SettingsPage} {pin : Text} (hpin : pin.val ≠ [])
    (h : w.answers pin.val = true) :
    IsOf (w.setPin pin.val).settings pin ∧ (w.setPin pin.val).settings.pinHash ≠ [] ∧
      (w.setPin pin.val).dialog = w.dialog ∧ (w.setPin pin.val).legacyPin.val = [] := by
  unfold setPin
  rw [if_neg hpin, if_pos h]
  simp only [answers, Bool.and_eq_true, decide_eq_true_eq] at h
  obtain ⟨⟨hsalt, -⟩, hhash⟩ := h
  simp only [AppSettings.setPin, if_neg hpin, if_neg hsalt, if_neg hhash]
  exact ⟨⟨hsalt, rfl⟩, hhash, trivial, rfl⟩

theorem setPin_fails {w : SettingsPage} {pin : QString} (hpin : pin ≠ [])
    (h : w.answers pin = false) : w.setPin pin = { w with drawn := w.drawn + 1 } := by
  unfold setPin
  rw [if_neg hpin, h, if_neg Bool.false_ne_true]

theorem Inv.construct {w : SettingsPage} (h : w.Inv) (hok : w.Guarded .construct) :
    w.construct.Inv := by
  simp only [SettingsPage.construct]
  split
  · rename_i hl
    refine ⟨h.chosen, fun _ hon => ?_, fun hd => ?_, fun hne => absurd hl hne⟩
    · have hset := hok hon
      rw [if_pos hl] at hset
      simpa [AppSettings.pinIsSet] using hset
    · cases hd
  · rename_i hl
    generalize hw₁ : ({ w with
      constructed := true
      dialog := false } : SettingsPage) = w₁
    have hlegacy : w₁.legacyPin = w.legacyPin := by rw [← hw₁]
    have hanswers : w₁.answers w.legacyPin.val = w.answers w.legacyPin.val := by rw [← hw₁]; rfl
    have hdialog : w₁.dialog = false := by rw [← hw₁]
    cases ha : w₁.answers w.legacyPin.val with
    | true =>
      obtain ⟨hof, hne, hdialog', -⟩ := setPin_answers hl ha
      refine ⟨fun _ => ⟨w.legacyPin, rfl, hof⟩, fun _ _ => hne, fun hd => ?_,
        fun hne => absurd rfl hne⟩
      exact absurd ((hdialog'.trans hdialog).symm.trans hd) Bool.false_ne_true
    | false =>
      rw [setPin_fails hl ha, ← hw₁]
      have hempty : w.settings.pinHash = [] := (h.legacy hl).2
      refine ⟨fun hne => absurd hempty hne, fun _ hon => ?_, fun hd => ?_,
        fun hne => absurd rfl hne⟩
      · have hset := hok hon
        rw [if_neg hl] at hset
        exact absurd ((hanswers.symm.trans ha).symm.trans hset) Bool.false_ne_true
      · cases hd

theorem Inv.switchPin {w : SettingsPage} (h : w.Inv) (hd : w.dialog = false) {checked : Bool}
    (hok : checked = true → w.settings.pinIsSet = true) : (w.switchPin checked).Inv := by
  simp only [SettingsPage.switchPin, setPinEnabled_eq]
  have hset : ¬ (checked = true ∧ ¬ w.settings.pinIsSet = true) := fun hn => hn.2 (hok hn.1)
  rw [show ({ w.settings with pinEnabled := checked } : AppSettings).pinIsSet =
    w.settings.pinIsSet from rfl, if_neg hset]
  refine ⟨h.chosen, fun _ hon => ?_, fun hd' => ?_, h.legacy⟩
  · simpa [AppSettings.pinIsSet] using hok hon
  · exact absurd (hd.symm.trans hd') Bool.false_ne_true

theorem Inv.accept {w : SettingsPage} (h : w.Inv) {text : Text} (hc : w.canAccept text.val = true)
    (hok : w.answers text.val = true ∨ w.chosen = some text) :
    (w.step (.accept text)).Inv := by
  simp only [SettingsPage.step]
  rw [if_pos hc]
  simp only [canAccept, Bool.and_eq_true, decide_eq_true_eq] at hc
  have hne : text.val ≠ [] := by
    intro hnil
    rw [hnil] at hc
    exact absurd hc.1.2 (by decide)
  obtain ⟨hconstructed, hon⟩ := h.dialog hc.1.1
  have hlegacy : w.legacyPin.val = [] := by
    refine Classical.byContradiction fun hl => ?_
    exact absurd ((h.legacy hl).1.symm.trans hconstructed) Bool.false_ne_true
  cases ha : w.answers text.val with
  | true =>
    obtain ⟨hof, hhash, -, hlegacy'⟩ := setPin_answers hne ha
    refine ⟨fun _ => ⟨text, rfl, hof⟩, fun _ _ => hhash, fun hd => ?_, fun hl => ?_⟩
    · cases hd
    · exact absurd hlegacy' hl
  | false =>
    rw [setPin_fails hne ha]
    have hchosen := hok.resolve_left (ne_true_of_eq_false ha)
    refine ⟨fun hhash => ?_, h.enabled, fun hd => ?_, fun hl => absurd hlegacy hl⟩
    · obtain ⟨pin, hpin, hof⟩ := h.chosen hhash
      rw [hchosen] at hpin
      exact ⟨pin, hpin, hof⟩
    · cases hd

theorem Inv.step {w : SettingsPage} (h : w.Inv) (e : PageEvent) (hok : w.Guarded e) :
    (w.step e).Inv := by
  cases e with
  | construct => exact h.construct hok
  | setReceiveEnabled enabled =>
    simp only [SettingsPage.step]
    split
    · unfold AppSettings.setReceiveEnabled
      split
      · exact h
      · exact ⟨h.chosen, h.enabled, h.dialog, h.legacy⟩
    · exact h
  | switchPin checked =>
    simp only [SettingsPage.step]
    split
    · rename_i hc
      have hd : w.dialog = false := by
        simp only [canSwitch, Bool.and_eq_true, Bool.not_eq_true'] at hc
        exact hc.1.2
      exact h.switchPin hd (hok hc)
    · exact h
  | openDialog =>
    simp only [SettingsPage.step]
    split
    · rename_i hc
      exact ⟨h.chosen, h.enabled, fun _ => ⟨hc.1, hc.2.2⟩, h.legacy⟩
    · exact h
  | accept text =>
    cases hc : w.canAccept text.val with
    | true => exact h.accept hc (hok hc)
    | false =>
      simp only [SettingsPage.step, hc]
      exact h
  | dismiss =>
    refine ⟨h.chosen, h.enabled, fun hd => ?_, h.legacy⟩
    cases hd
  | remove =>
    simp only [SettingsPage.step]
    split
    · refine ⟨fun hne => absurd ?_ hne, fun _ hon => ?_, fun hd => ?_, fun hl => absurd rfl hl⟩
      · simp [SettingsPage.remove, setPin, setPinEnabled_eq, AppSettings.setPin]
      · simp [SettingsPage.remove, setPinEnabled_eq] at hon
      · cases hd
    · exact h

theorem Start.inv {w : SettingsPage} (h : w.Start) : w.Inv where
  chosen hne := absurd h.hash hne
  enabled hc := absurd (h.constructed.symm.trans hc) Bool.false_ne_true
  dialog hd := absurd (h.dialog.symm.trans hd) Bool.false_ne_true
  legacy _ := ⟨h.constructed, h.hash⟩

/-- A candidate that passes is the PIN the hash is of. -/
theorem eq_of_checkPin (hp : Crypto.Separates) {s : AppSettings} {pin candidate : Text}
    (hon : s.pinEnabled = true) (hof : IsOf s pin) (hne : s.pinHash ≠ [])
    (hc : s.checkPin candidate.val = true) : candidate = pin := by
  obtain ⟨hsalt, hhash⟩ := hof
  have hderive : ∀ secret : QString, Crypto.deriveKey secret s.pinSalt PinIterations PinHashBytes =
      Qt.pbkdf2 (QString.toUtf8 secret) s.pinSalt PinIterations PinHashBytes := by
    intro secret
    simp [Crypto.deriveKey, PinIterations, PinHashBytes]
  rw [hderive] at hhash
  have hlen : s.pinHash.length = PinHashBytes := by
    rw [hhash]
    refine (hp.length _ _ _ _).resolve_left fun hnil => ?_
    exact hne (hhash.trans hnil)
  have hopen : ¬ (s.pinSalt = [] ∨ s.pinHash = []) := fun h => h.elim hsalt hne
  unfold AppSettings.checkPin at hc
  rw [if_neg (by simp [hon]), if_neg hopen, hlen, hderive] at hc
  simp only at hc
  split at hc
  · cases hc
  · rename_i hsome
    have heq := beq_iff_eq.1 hc
    rw [hhash] at heq
    have hutf := hp.injective _ _ _ _ _ hsome heq
    exact Subtype.ext (QString.toUtf8_inj candidate.property pin.property hutf)

theorem Inv.barred (hp : Crypto.Separates) {w : SettingsPage} (h : w.Inv) : w.Barred := by
  intro hconstructed hon candidate hc
  have hne := h.enabled hconstructed hon
  obtain ⟨pin, hchosen, hof⟩ := h.chosen hne
  rw [eq_of_checkPin hp hon hof hne hc]
  exact hchosen

/-- In every run that never has the requirement on without a PIN on record, only the PIN the user
last chose passes. -/
theorem pin_barred (hp : Crypto.Separates) {w : SettingsPage}
    (h : Lib.ReachedBy system Guarded w) : w.Barred :=
  (h.invariant (I := Inv) (fun _ hs => Start.inv hs) fun _ e hi hok => hi.step e hok).barred hp

end SettingsPage

end

/-! ## A legacy PIN that is migrated, and a dialog that is dismissed -/

/-- A key that spells the secret out. -/
def spelledKey (secret _salt : QByteArray) (_iterations n : Nat) : QByteArray :=
  if secret.length < n ∧ n ≤ 256 then
    UInt8.ofNat secret.length :: (secret ++ List.replicate (n - 1 - secret.length) 0)
  else []

namespace SettingsPage

section

local instance spelledQt : Qt :=
  { Ascii.qt [] [] with pbkdf2 := spelledKey }

theorem spelledQt_separates : Crypto.Separates where
  length := by
    intro secret salt iterations n
    change spelledKey secret salt iterations n = [] ∨ (spelledKey secret salt iterations n).length = n
    unfold spelledKey
    split
    · refine .inr ?_
      simp only [List.length_cons, List.length_append, List.length_replicate]
      omega
    · exact .inl rfl
  injective := by
    intro secret secret' salt iterations n hne heq
    change spelledKey secret salt iterations n ≠ [] at hne
    change spelledKey secret salt iterations n = spelledKey secret' salt iterations n at heq
    unfold spelledKey at hne heq
    split at hne
    · rename_i hfits
      rw [if_pos hfits] at heq
      split at heq
      · rename_i hfits'
        injection heq with hhead htail
        have hlen := congrArg UInt8.toNat hhead
        rw [UInt8.toNat_ofNat', UInt8.toNat_ofNat'] at hlen
        exact (List.append_inj htail (by omega)).1
      · cases heq
    · exact absurd rfl hne

/-- An older version required this PIN. -/
def upgraded : SettingsPage where
  settings := { AppSettings.trusting with pinEnabled := true }
  legacyPin := ⟨str "4269", by decide⟩
  random := countingSource
  derives _ := true
  drawn := 0
  constructed := false
  dialog := false
  chosen := none

theorem upgraded_barred : (upgraded.step .construct).settings.pinEnabled = true ∧
    (upgraded.step .construct).Barred := by
  have hok : Guarded upgraded .construct := by
    intro _
    decide +kernel
  have hstart : Start upgraded := ⟨rfl, rfl, rfl, rfl, rfl⟩
  have hreached : Lib.ReachedBy system Guarded (upgraded.step .construct) :=
    Lib.ReachedBy.next PageEvent.construct (.start hstart) hok
  exact ⟨by decide +kernel, pin_barred spelledQt_separates hreached⟩

/-- A fresh install. -/
def fresh : SettingsPage := { upgraded with
  settings := AppSettings.trusting
  legacyPin := .empty }

/-- The requirement is switched on and the dialog dismissed: any PIN passes. -/
theorem dismissed_open : ∃ w : SettingsPage, Lib.Reached system w ∧ ¬ w.Barred := by
  have hstart : Start fresh := ⟨rfl, rfl, rfl, rfl, rfl⟩
  refine ⟨[.construct, .switchPin true, .dismiss].foldl step fresh,
    Lib.ReachedBy.run_any _ (.start hstart), fun hbarred => ?_⟩
  have hchosen := hbarred rfl rfl ⟨str "0000", by decide⟩ (by decide +kernel)
  cases hchosen

end

end SettingsPage

end LocalSend
