import LocalSend.Core.Settings
import LocalSend.Lib.Run
import LocalSend.Qt.Utf8

/-!
# The PIN on the settings page

What the settings page does to the PIN, and what the constructor of `AppSettings` does about one
that an older version kept in the clear. The random source and the key derivation answer or fail
each time they are asked; the set-up dialog is pushed over the page.
-/

set_option autoImplicit false

namespace LocalSend

/-- A string as it is typed or decoded. -/
abbrev Text := { s : QString // s.WellFormed }

def Text.empty : Text := ⟨[], rfl⟩

namespace AppSettings

def pinIsSet (s : AppSettings) : Bool := s.pinHash ≠ []

def setPinEnabled (s : AppSettings) (enabled : Bool) : AppSettings :=
  if enabled = s.pinEnabled then s else { s with pinEnabled := enabled }

end AppSettings

structure SettingsPage where
  settings : AppSettings
  /-- The PIN in the clear, empty unless an older version wrote it. -/
  legacyPin : Text
  random : Crypto.Random
  /-- The key derivation works, the `n`-th time. -/
  derives : Nat → Bool
  drawn : Nat
  constructed : Bool
  dialog : Bool
  /-- A ghost: the PIN the user last chose. -/
  chosen : Option Text

inductive PageEvent
  /-- The app starts. -/
  | construct
  | setReceiveEnabled (enabled : Bool)
  | switchPin (checked : Bool)
  | openDialog
  | accept (text : Text)
  | dismiss
  | remove

namespace SettingsPage

/-- An install that no `AppSettings` of this version has opened, PIN in the clear or none. -/
structure Start (w : SettingsPage) : Prop where
  salt : w.settings.pinSalt = []
  hash : w.settings.pinHash = []
  constructed : w.constructed = false
  dialog : w.dialog = false
  chosen : w.chosen = none

def salt (w : SettingsPage) : QByteArray := Crypto.randomBytes w.random w.drawn PinSaltBytes

/-- The PIN switch can be clicked. -/
def canSwitch (w : SettingsPage) : Bool :=
  w.constructed && !w.dialog && w.settings.receiveEnabled

def canAccept (w : SettingsPage) (text : QString) : Bool :=
  w.dialog && 4 ≤ text.length && text.length ≤ 8

variable [Qt]

/-- The random source and the key derivation both work for this PIN. -/
def answers (w : SettingsPage) (pin : QString) : Bool :=
  w.salt ≠ [] && w.derives w.drawn &&
    Crypto.deriveKey pin w.salt PinIterations PinHashBytes ≠ []

def setPin (w : SettingsPage) (pin : QString) : SettingsPage :=
  if pin = [] then { w with
    settings := w.settings.setPin [] []
    legacyPin := .empty }
  else if w.answers pin then { w with
    settings := w.settings.setPin pin w.salt
    legacyPin := .empty
    drawn := w.drawn + 1 }
  else { w with drawn := w.drawn + 1 }

/-- The legacy PIN is dropped, migrated or not. -/
def construct (w : SettingsPage) : SettingsPage :=
  let w := { w with
    constructed := true
    dialog := false }
  if w.legacyPin.val = [] then w
  else { w.setPin w.legacyPin.val with
    legacyPin := .empty
    chosen := some w.legacyPin }

def switchPin (w : SettingsPage) (checked : Bool) : SettingsPage :=
  let w := { w with settings := w.settings.setPinEnabled checked }
  if checked ∧ ¬ w.settings.pinIsSet then { w with dialog := true } else w

def remove (w : SettingsPage) : SettingsPage :=
  let w := w.setPin []
  { w with
    settings := w.settings.setPinEnabled false
    dialog := false
    chosen := none }

def step (w : SettingsPage) : PageEvent → SettingsPage
  | .construct => w.construct
  | .setReceiveEnabled enabled =>
    if w.constructed then { w with settings := (w.settings.setReceiveEnabled enabled).2 } else w
  | .switchPin checked => if w.canSwitch then w.switchPin checked else w
  | .openDialog =>
    if w.constructed ∧ ¬ w.dialog ∧ w.settings.pinEnabled then { w with dialog := true } else w
  | .accept text =>
    if w.canAccept text.val then { w.setPin text.val with
      dialog := false
      chosen := some text }
    else w
  | .dismiss => { w with dialog := false }
  | .remove => if w.dialog ∧ w.settings.pinIsSet then w.remove else w

def system : Lib.System SettingsPage PageEvent := ⟨Start, step⟩

end SettingsPage

end LocalSend
