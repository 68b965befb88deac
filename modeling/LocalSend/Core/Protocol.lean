import LocalSend.Qt.Json

/-!
# The protocol's constants and the text filter
-/

set_option autoImplicit false

namespace LocalSend.Protocol

def Version : QString := str "2.1"

def ApiPrefix : QString := str "/api/localsend/v2"

def DefaultPort : Int := 53317

def PathInfo : QString := str "/info"
def PathRegister : QString := str "/register"
def PathPrepareUpload : QString := str "/prepare-upload"
def PathUpload : QString := str "/upload"
def PathCancel : QString := str "/cancel"
def PathLegacyInfo : QString := str "/api/localsend/v1/info"

/-- The code units `sanitizeText` drops: controls, bidirectional overrides and isolates,
zero-width characters and angle brackets. -/
def isStripped (code : QChar) : Bool :=
  code < 0x20 || code == 0x7F || (0x80 ≤ code && code ≤ 0x9F)
    || (0x202A ≤ code && code ≤ 0x202E) || (0x2066 ≤ code && code ≤ 0x2069)
    || code == 0x200B || code == 0x200C || code == 0x200D || code == 0xFEFF
    || code == 60 || code == 62

/-- The filtering loop: at most `room` more characters are appended. -/
def keepClean : QString → Nat → QString
  | [], _ => []
  | _ :: _, 0 => []
  | c :: text, room + 1 =>
    if isStripped c then keepClean text (room + 1) else c :: keepClean text room

def sanitizeText (text : QString) (maxLength : Nat) : QString :=
  QString.trimmed (keepClean text maxLength)

/-- A string with nothing in it that `sanitizeText` drops. -/
def Clean (s : QString) : Prop := ∀ c ∈ s, isStripped c = false

instance (s : QString) : Decidable (Clean s) := List.decidableBAll _ s

theorem clean_nil : Clean [] := fun _ h => absurd h List.not_mem_nil

theorem keepClean_clean : ∀ (text : QString) (room : Nat), Clean (keepClean text room)
  | [], _ => clean_nil
  | _ :: _, 0 => clean_nil
  | c :: text, room + 1 => by
    unfold keepClean
    split
    · exact keepClean_clean text (room + 1)
    · rename_i h
      intro d hd
      rcases List.mem_cons.1 hd with rfl | hd
      · simpa using h
      · exact keepClean_clean text room d hd

theorem mem_trimmed {s : QString} {c : QChar} (h : c ∈ QString.trimmed s) : c ∈ s := by
  unfold QString.trimmed at h
  have h := (List.dropWhile_sublist _).subset (List.mem_reverse.1 h)
  exact (List.dropWhile_sublist _).subset (List.mem_reverse.1 h)

theorem sanitizeText_clean (text : QString) (maxLength : Nat) :
    Clean (sanitizeText text maxLength) :=
  fun c hc => keepClean_clean text maxLength c (mem_trimmed hc)

end LocalSend.Protocol
