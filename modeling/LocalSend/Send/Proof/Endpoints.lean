import LocalSend.Lib.Sieve
import LocalSend.Qt.Ascii
import LocalSend.Send.Endpoints
import LocalSend.Send.Run

/-!
# A typed address

The notations for an address (`Typed`), with blanks around them, and what `addDeviceAt` makes of
each. The text is split at its last colon unless it has a bracket in it. So an IPv6 literal whose
last group reads as a port loses it, and a bracketed one never gets rid of the port behind it
(`Typed.Misread`); everything else is probed as it was meant, and the endpoint that is stored says so
again (`typed_address_iff`).
-/

set_option autoImplicit false

namespace LocalSend

/-- Nothing but white space. -/
structure Blank where
  text : QString
  space : ∀ c ∈ text, QString.isSpace c = true

/-- A letter, a digit, a hyphen, an underscore or a dot. -/
def isNameChar (c : QChar) : Bool :=
  QUrl.isLetter c || QString.isDigit c || c == 45 || c == 95 || c == 46

structure HostName where
  text : QString
  nonempty : text ≠ []
  chars : ∀ c ∈ text, isNameChar c = true

/-- A port as it is typed. -/
structure PortText where
  digits : QString
  value : Nat
  reads : QString.magnitude digits = some value
  low : 1 ≤ value
  high : value ≤ 65535

/-- What stands for a host, and the port behind it. -/
inductive Spelling
  | ipv4 (a b c d : UInt8) (port : Option PortText)
  | name (host : HostName) (port : Option PortText)
  | bare (address : Ipv6)
  | bracketed (address : Ipv6) (port : Option PortText)

structure Typed where
  before : Blank
  what : Spelling
  after : Blank

def portText : Option PortText → QString
  | none => []
  | some port => 58 :: port.digits

namespace Spelling

def text : Spelling → QString
  | .ipv4 a b c d port => LocalSend.ipv4 a b c d ++ portText port
  | .name host port => host.text ++ portText port
  | .bare address => address.text
  | .bracketed address port => 91 :: (address.text ++ 93 :: portText port)

/-- The host that is meant. -/
def host : Spelling → QString
  | .ipv4 a b c d _ => LocalSend.ipv4 a b c d
  | .name host _ => host.text
  | .bare address => address.text
  | .bracketed address _ => address.text

def port : Spelling → Option PortText
  | .ipv4 _ _ _ _ port => port
  | .name _ port => port
  | .bare _ => none
  | .bracketed _ port => port

/-- A bare IPv6 literal whose last group reads as a port, or a port behind a bracketed one. -/
def Misread : Spelling → Prop
  | .bare address => ∃ front back n, address.text = front ++ 58 :: back ∧ 58 ∉ back ∧
      QString.magnitude back = some n ∧ 1 ≤ n ∧ n ≤ 65535
  | .bracketed _ (some _) => True
  | _ => False

end Spelling

def Typed.text (t : Typed) : QString := t.before.text ++ (t.what.text ++ t.after.text)

/-- The port in the text, else the port beside it if it is one, else the default. -/
def Typed.target (t : Typed) (port : Int) : Int :=
  match t.what.port with
  | some typed => typed.value
  | none => if 1 ≤ port ∧ port ≤ 65535 then port else Protocol.DefaultPort

/-- The host a text stands for in a URL: an IP literal may be in brackets. -/
def QUrl.unbracketed : QString → QString
  | 91 :: s => if s.getLast? = some 93 then s.dropLast else 91 :: s
  | s => s

/-! ## Reading numbers -/

namespace QString

theorem toInt_eq {s : QString} (h : ∀ c ∈ s, isSpace c = false ∧ c ≠ 45 ∧ c ≠ 43) :
    toInt s = (magnitude s).bind fun n => if n < 2 ^ 31 then some (n : Int) else none := by
  have htight : Lib.Tight isSpace s :=
    ⟨fun c hc => (h c (List.mem_of_mem_head? hc)).1,
      fun c hc => (h c (List.mem_of_getLast? hc)).1⟩
  have htrim : trimmed s = s := Lib.trim_of_tight htight
  unfold toInt
  rw [htrim]
  split
  · exact absurd rfl (h 45 (by simp)).2.1
  · exact absurd rfl (h 43 (by simp)).2.2
  · rfl

theorem magnitude_digits {s : QString} {n : Nat} (h : magnitude s = some n) :
    s ≠ [] ∧ ∀ c ∈ s, isDigit c = true := by
  unfold magnitude at h
  split at h
  · rename_i hs
    exact ⟨hs.1, List.all_eq_true.1 hs.2⟩
  · exact absurd h (by simp)

theorem isDigit_plain {c : QChar} (h : isDigit c = true) :
    isSpace c = false ∧ c ≠ 45 ∧ c ≠ 43 ∧ c ≠ 58 ∧ c ≠ 91 ∧ c ≠ 93 := by
  refine ⟨isDigit_not_space h, ?_, ?_, ?_, ?_, ?_⟩ <;> rintro rfl <;> exact absurd h (by decide)

theorem toInt_magnitude {s : QString} {n : Nat} (h : magnitude s = some n) (hn : n < 2 ^ 31) :
    toInt s = some (n : Int) := by
  rw [toInt_eq fun c hc => ?_, h]
  · exact if_pos hn
  · have hc := isDigit_plain ((magnitude_digits h).2 c hc)
    exact ⟨hc.1, hc.2.1, hc.2.2.1⟩

end QString

/-! ## Endpoints -/

theorem decimal_of_pos {n : Int} (h : 0 < n) :
    DeviceInfo.decimal n = QString.number n.toNat := by
  unfold DeviceInfo.decimal
  rw [if_neg (by omega), List.nil_append]
  congr 1
  omega

/-- An endpoint is read as it was written. -/
theorem readEndpoint_endpointText {host : QString} {port : Int} (hhost : host ≠ []) (hlow : 0 < port)
    (hhigh : port ≤ 65535) : readEndpoint (endpointText (host, port)) = some (host, port) := by
  have hcolon : 58 ∉ QString.number port.toNat := QString.number_plain (by decide)
  have hread : QString.toInt (QString.number port.toNat) = some port := by
    rw [QString.toInt_magnitude (QString.magnitude_number _) (by omega)]
    congr 1
    omega
  have hlen : host.length ≠ 0 := by simpa using hhost
  unfold readEndpoint endpointText
  rw [decimal_of_pos hlow, QString.lastIndexOf_append hcolon]
  have hdrop : (host ++ 58 :: QString.number port.toNat).drop (host.length + 1) =
      QString.number port.toNat := by
    rw [← List.drop_drop, List.drop_left]
    rfl
  simp only [hlen, if_false, List.take_left, hdrop, hread, Option.getD_some]
  rw [if_neg]
  intro h
  rcases h with h | h
  · exact hhost h
  · omega

/-- It has no blanks around it to lose on the way to the settings. -/
theorem trimmed_endpointText {host : QString} {port : Int} (hhost : host ≠ []) (hlow : 0 < port)
    (htight : Lib.Tight QString.isSpace host) :
    QString.trimmed (endpointText (host, port)) = endpointText (host, port) := by
  refine Lib.trim_of_tight ⟨fun c hc => ?_, fun c hc => ?_⟩
  · refine htight.1 c ?_
    unfold endpointText at hc
    rw [List.head?_append_of_ne_nil _ hhost] at hc
    exact hc
  · have hlast : c ∈ (QString.number port.toNat).getLast? := by
      unfold endpointText at hc
      rw [decimal_of_pos hlow, List.getLast?_append, List.getLast?_cons] at hc
      obtain ⟨d, hd⟩ := Option.isSome_iff_exists.1
        (List.getLast?_isSome.2 (QString.number_ne_nil port.toNat))
      rw [hd] at hc ⊢
      simpa using hc
    exact QString.isDigit_not_space (QString.number_digits (List.mem_of_getLast? hlast))

/-- An endpoint as `addDeviceAt` makes them. -/
structure Storable (endpoint : QString × Int) : Prop where
  host : endpoint.1 ≠ []
  tight : Lib.Tight QString.isSpace endpoint.1
  low : 0 < endpoint.2
  high : endpoint.2 ≤ 65535

theorem Storable.read {endpoint : QString × Int} (h : Storable endpoint) :
    readEndpoint (QString.trimmed (endpointText endpoint)) = some endpoint := by
  rw [trimmed_endpointText h.host h.low h.tight]
  exact readEndpoint_endpointText h.host h.low h.high

theorem Storable.trimmed {endpoint : QString × Int} (h : Storable endpoint) :
    QString.trimmed (endpointText endpoint) = endpointText endpoint :=
  trimmed_endpointText h.host h.low h.tight

theorem endpointText_inj {endpoint endpoint' : QString × Int} (h : Storable endpoint)
    (h' : Storable endpoint') (heq : endpointText endpoint = endpointText endpoint') :
    endpoint = endpoint' := by
  have hread := h.read
  rw [heq, h'.read] at hread
  simpa using hread.symm

/-- The stored texts are those of the endpoints, also after one is added. -/
theorem addManualDevice_map {endpoints : List (QString × Int)} {endpoint : QString × Int}
    (hall : ∀ e ∈ endpoints, Storable e) (h : Storable endpoint) :
    AppSettings.addManualDevice (endpoints.map endpointText) (endpointText endpoint) =
      (if endpoint ∈ endpoints then endpoints else endpoints ++ [endpoint]).map endpointText := by
  have hne : endpointText endpoint ≠ [] := by simp [endpointText]
  have hmem : endpointText endpoint ∈ endpoints.map endpointText ↔ endpoint ∈ endpoints := by
    refine ⟨fun hm => ?_, fun hm => List.mem_map_of_mem hm⟩
    obtain ⟨e, he, heq⟩ := List.mem_map.1 hm
    rw [← endpointText_inj (hall e he) h heq]
    exact he
  unfold AppSettings.addManualDevice
  simp only [h.trimmed, hne, List.contains_iff_mem, hmem, false_or]
  split
  · rfl
  · simp

/-- The endpoints are refreshed as they were stored. -/
theorem refreshEndpoints_map [Qt] (w : Sender)
    (hall : ∀ e ∈ w.discovery.manualDevices, Storable e) :
    w.refreshEndpoints (w.discovery.manualDevices.map endpointText) = w.refreshManualDevices := by
  have hfold : ∀ (endpoints : List (QString × Int)) (v : Sender), (∀ e ∈ endpoints, Storable e) →
      v.refreshEndpoints (endpoints.map endpointText) = endpoints.foldl (fun w endpoint =>
        if endpoint.1 = [] ∨ endpoint.2 ≤ 0 then w
        else w.probeBoth endpoint.1 endpoint.2 .refreshed) v := by
    intro endpoints
    induction endpoints with
    | nil => exact fun _ _ => rfl
    | cons e endpoints ih =>
      intro v hall
      obtain ⟨host, port⟩ := e
      have he := hall (host, port) (by simp)
      have hread := he.read
      rw [he.trimmed] at hread
      have hprobed : ¬ (host = [] ∨ port ≤ 0) := by
        intro hor
        rcases hor with hnil | hport
        · exact he.host hnil
        · have hlow : 0 < port := he.low
          omega
      have hrest := ih (v.probeBoth host port .refreshed) fun e he => hall e (by simp [he])
      unfold Sender.refreshEndpoints at hrest ⊢
      rw [List.map_cons, List.foldl_cons, List.foldl_cons, hread]
      simp only [if_neg hprobed]
      exact hrest
  exact hfold w.discovery.manualDevices w hall

/-! ## What is typed, taken apart -/

/-- A text that holds no blank. -/
theorem tight_of {s : QString} (h : ∀ c ∈ s, QString.isSpace c = false) :
    Lib.Tight QString.isSpace s :=
  ⟨fun c hc => h c (List.mem_of_mem_head? hc), fun c hc => h c (List.mem_of_getLast? hc)⟩

theorem isIpv6Char_tight {c : QChar} (h : isIpv6Char c = true) :
    QString.isSpace c = false ∧ c ≠ 45 ∧ c ≠ 43 ∧ c ≠ 91 ∧ c ≠ 93 := by
  refine ⟨?_, ?_, ?_, ?_, ?_⟩
  · simp only [isIpv6Char, QString.isDigit, Bool.or_eq_true, Bool.and_eq_true, decide_eq_true_eq,
      beq_iff_eq, UInt16.le_iff_toNat_le, ← UInt16.toNat_inj, UInt16.reduceToNat] at h
    simp only [QString.isSpace, Bool.or_eq_false_iff, Bool.and_eq_false_iff, beq_eq_false_iff_ne,
      decide_eq_false_iff_not, ne_eq, UInt16.le_iff_toNat_le, ← UInt16.toNat_inj,
      UInt16.reduceToNat]
    omega
  all_goals
    rintro rfl
    exact absurd h (by decide)

theorem isNameChar_tight {c : QChar} (h : isNameChar c = true) :
    QString.isSpace c = false ∧ c ≠ 58 ∧ c ≠ 91 := by
  refine ⟨?_, ?_, ?_⟩
  · simp only [isNameChar, QUrl.isLetter, QString.isDigit, Bool.or_eq_true, Bool.and_eq_true,
      decide_eq_true_eq, beq_iff_eq, UInt16.le_iff_toNat_le, ← UInt16.toNat_inj,
      UInt16.reduceToNat] at h
    simp only [QString.isSpace, Bool.or_eq_false_iff, Bool.and_eq_false_iff, beq_eq_false_iff_ne,
      decide_eq_false_iff_not, ne_eq, UInt16.le_iff_toNat_le, ← UInt16.toNat_inj,
      UInt16.reduceToNat]
    omega
  all_goals
    rintro rfl
    exact absurd h (by decide)

/-- The blanks around do not matter. -/
theorem splitTyped_trim {text : QString} (h : ∀ c ∈ text, QString.isSpace c = false)
    (before after : Blank) (port : Int) :
    Sender.splitTyped (before.text ++ (text ++ after.text)) port = Sender.splitTyped text port := by
  have hleft : QString.trimmed (before.text ++ (text ++ after.text)) = text :=
    Lib.trim_around (tight_of h) before.space after.space
  have hright : QString.trimmed text = text := Lib.trim_of_tight (tight_of h)
  unfold Sender.splitTyped
  rw [hleft, hright]

section
variable {text : QString} {port : Int}

theorem splitTyped_whole (h : ∀ c ∈ text, QString.isSpace c = false)
    (hwhole : 91 ∈ text ∨ 58 ∉ text ∨ ∃ front back, text = front ++ 58 :: back ∧ 58 ∉ back ∧
      ∀ n, QString.toInt back = some n → ¬ (0 < n ∧ n < 65536)) :
    Sender.splitTyped text port = (text, port) := by
  have htrim : QString.trimmed text = text := Lib.trim_of_tight (tight_of h)
  unfold Sender.splitTyped
  simp only [htrim]
  rcases hwhole with hbracket | hcolon | ⟨front, back, heq, hback, hport⟩
  · split
    · simp only [htrim]
    · simp only [hbracket, not_true, and_false, if_false, htrim]
  · rw [QString.lastIndexOf_none hcolon]
    simp only [htrim]
  · have hdrop : text.drop (front.length + 1) = back := by
      rw [heq, ← List.drop_drop, List.drop_left]
      rfl
    have hindex : QString.lastIndexOf text 58 = some front.length := by
      rw [heq]
      exact QString.lastIndexOf_append hback
    rw [hindex]
    simp only [hdrop]
    split
    · split
      · rename_i n hn
        rw [if_neg (hport n hn)]
        simp only [htrim]
      · simp only [htrim]
    · simp only [htrim]

theorem splitTyped_port {front back : QString} {n : Int}
    (h : ∀ c ∈ front, QString.isSpace c = false) (hbare : 91 ∉ front ++ 58 :: back)
    (hspace : ∀ c ∈ back, QString.isSpace c = false) (hfront : front ≠ []) (hback : 58 ∉ back)
    (hport : QString.toInt back = some n) (hlow : 0 < n) (hhigh : n < 65536) :
    Sender.splitTyped (front ++ 58 :: back) port = (front, n) := by
  have htext : ∀ c ∈ front ++ 58 :: back, QString.isSpace c = false := by
    intro c hc
    rcases List.mem_append.1 hc with hc | hc
    · exact h c hc
    · rcases List.mem_cons.1 hc with rfl | hc
      · decide
      · exact hspace c hc
  have htrim : QString.trimmed (front ++ 58 :: back) = front ++ 58 :: back :=
    Lib.trim_of_tight (tight_of htext)
  have hfrontTrim : QString.trimmed front = front := Lib.trim_of_tight (tight_of h)
  have hdrop : (front ++ 58 :: back).drop (front.length + 1) = back := by
    rw [← List.drop_drop, List.drop_left]
    rfl
  have hpos : front.length > 0 := List.length_pos_iff.2 hfront
  unfold Sender.splitTyped
  simp only [htrim, QString.lastIndexOf_append hback, hdrop, hport]
  rw [if_pos ⟨hpos, hbare⟩, if_pos ⟨hlow, hhigh⟩]
  simp only [List.take_left, hfrontTrim]

end

/-! ## What is probed and kept -/

section
variable [Qt]

/-- The request that introduces this device to a typed address. -/
def Sender.introduction (w : Sender) (scheme host : QString) (port : Int) : QNetworkRequest where
  scheme := scheme
  host := host
  port := port
  policy := .acceptUnknown
  content := .introduction w.registerBody
  slot := .manual

/-- Both transports are tried at the host that is meant, on the port that is meant, and what is
stored for them is read as the same host and port. -/
def Typed.Understood (t : Typed) (port : Int) (w : Sender) : Prop :=
  ∃ host, QUrl.unbracketed host = t.what.host ∧
    (w.addTyped t.text port).log.map (·.what) = w.log.map (·.what) ++
      [.posted (w.introduction (str "https") host (t.target port)),
        .posted (w.introduction (str "http") host (t.target port))] ∧
    (w.addTyped t.text port).discovery.manualEndpoint = (host, t.target port) ∧
    readEndpoint (QString.trimmed (endpointText (host, t.target port))) =
      some (host, t.target port)

/-- A port, or the default in its place. -/
def portOr (port : Int) : Int :=
  if port ≤ 0 ∨ port > 65535 then Protocol.DefaultPort else port

omit [Qt] in
theorem portOr_bounds (port : Int) : 0 < portOr port ∧ portOr port ≤ 65535 := by
  unfold portOr
  split
  · decide
  · omega

theorem addTyped_probes {t : Typed} {port p : Int} {w : Sender} {host : QString}
    (hidle : w.discovery.manualPending = 0) (hne : host ≠ [])
    (hsplit : Sender.splitTyped t.text port = (host, p)) :
    (w.addTyped t.text port).log.map (·.what) = w.log.map (·.what) ++
      [.posted (w.introduction (str "https") host (portOr p)),
        .posted (w.introduction (str "http") host (portOr p))] ∧
    (w.addTyped t.text port).discovery.manualEndpoint = (host, portOr p) := by
  unfold Sender.addTyped Sender.addDeviceAt
  rw [hsplit, if_neg (by simp [hidle, hne])]
  simp [Sender.probeBoth, Sender.probe, Sender.post, Sender.emit, Sender.setReply, portOr,
    Sender.introduction, Sender.registerBody]

/-- What was understood is what the text was split into. -/
theorem understood_host {t : Typed} {port p : Int} {w : Sender} {host : QString}
    (hidle : w.discovery.manualPending = 0) (hne : host ≠ [])
    (hsplit : Sender.splitTyped t.text port = (host, p)) (h : t.Understood port w) :
    QUrl.unbracketed host = t.what.host := by
  obtain ⟨-, hendpoint⟩ := addTyped_probes hidle hne hsplit
  obtain ⟨host', hmeant, -, hendpoint', -⟩ := h
  have hsame : host = host' := congrArg Prod.fst (hendpoint.symm.trans hendpoint')
  rw [hsame]
  exact hmeant

theorem understood_iff {t : Typed} {port p : Int} {w : Sender} {host : QString}
    (hidle : w.discovery.manualPending = 0) (hne : host ≠ [])
    (htight : Lib.Tight QString.isSpace host)
    (hsplit : Sender.splitTyped t.text port = (host, p)) (hport : portOr p = t.target port) :
    t.Understood port w ↔ QUrl.unbracketed host = t.what.host := by
  refine ⟨understood_host hidle hne hsplit, fun hmeant => ?_⟩
  obtain ⟨hlog, hendpoint⟩ := addTyped_probes hidle hne hsplit
  have hbounds := portOr_bounds p
  rw [hport] at hlog hendpoint hbounds
  exact ⟨host, hmeant, hlog, hendpoint, Storable.read ⟨hne, htight, hbounds.1, hbounds.2⟩⟩

omit [Qt] in
theorem unbracketed_plain {s : QString} (h : 91 ∉ s) : QUrl.unbracketed s = s := by
  unfold QUrl.unbracketed
  split
  · exact absurd List.mem_cons_self h
  · rfl

omit [Qt] in
theorem portOr_beside {t : Typed} {port : Int} (h : t.what.port = none) :
    portOr port = t.target port := by
  unfold portOr Typed.target
  rw [h]
  simp only
  split
  · rw [if_neg (by omega)]
  · rw [if_pos (by omega)]

omit [Qt] in
theorem portOr_typed {t : Typed} {port : Int} {typed : PortText} (h : t.what.port = some typed) :
    portOr typed.value = t.target port := by
  have hlow := typed.low
  have hhigh := typed.high
  unfold portOr Typed.target
  rw [h, if_neg (by omega)]

/-- A host of characters that stand for nothing else, with or without a port, is understood. -/
theorem understood_plain {t : Typed} {w : Sender} (port : Int) {host : QString}
    {typed : Option PortText} (hidle : w.discovery.manualPending = 0) (hne : host ≠ [])
    (hchars : ∀ c ∈ host, QString.isSpace c = false ∧ c ≠ 58 ∧ c ≠ 91)
    (htext : t.what.text = host ++ portText typed) (hhost : t.what.host = host)
    (hport : t.what.port = typed) : t.Understood port w := by
  have hspace : ∀ c ∈ host, QString.isSpace c = false := fun c hc => (hchars c hc).1
  have hunbracketed : QUrl.unbracketed host = host :=
    unbracketed_plain fun h => (hchars 91 h).2.2 rfl
  cases typed with
  | none =>
    have hsplit : Sender.splitTyped t.text port = (host, port) := by
      have hplain : t.what.text = host := by rw [htext, portText, List.append_nil]
      unfold Typed.text
      rw [hplain, splitTyped_trim hspace]
      exact splitTyped_whole hspace (.inr (.inl fun h => (hchars 58 h).2.1 rfl))
    rw [understood_iff hidle hne (tight_of hspace) hsplit (portOr_beside hport), hhost]
    exact hunbracketed
  | some typed =>
    have hdigits := QString.magnitude_digits typed.reads
    have hlow := typed.low
    have hhigh := typed.high
    have hall : ∀ c ∈ host ++ 58 :: typed.digits, QString.isSpace c = false := by
      intro c hc
      rcases List.mem_append.1 hc with hc | hc
      · exact hspace c hc
      · rcases List.mem_cons.1 hc with rfl | hc
        · decide
        · exact (QString.isDigit_plain (hdigits.2 c hc)).1
    have hbracket : 91 ∉ host ++ 58 :: typed.digits := by
      intro h
      rcases List.mem_append.1 h with h | h
      · exact (hchars 91 h).2.2 rfl
      · rcases List.mem_cons.1 h with h | h
        · exact absurd h (by decide)
        · exact (QString.isDigit_plain (hdigits.2 91 h)).2.2.2.2.1 rfl
    have hsplit : Sender.splitTyped t.text port = (host, (typed.value : Int)) := by
      unfold Typed.text
      rw [htext, portText, splitTyped_trim hall]
      refine splitTyped_port hspace hbracket
        (fun c hc => (QString.isDigit_plain (hdigits.2 c hc)).1) hne
        (fun h => (QString.isDigit_plain (hdigits.2 58 h)).2.2.2.1 rfl)
        (QString.toInt_magnitude typed.reads (by omega)) (by omega) (by omega)
    rw [understood_iff hidle hne (tight_of hspace) hsplit (portOr_typed hport), hhost]
    exact hunbracketed

omit [Qt] in
theorem bare_chars (address : Ipv6) :
    (∀ c ∈ address.text, QString.isSpace c = false) ∧ 91 ∉ address.text ∧ 58 ∈ address.text := by
  refine ⟨fun c hc => (isIpv6Char_tight (address.chars c hc)).1, fun h => ?_, ?_⟩
  · exact (isIpv6Char_tight (address.chars 91 h)).2.2.2.1 rfl
  · have hcolons := address.colons
    exact List.count_pos_iff.1 (by omega)

omit [Qt] in
/-- The last group is taken for the port. -/
theorem splitTyped_misread {t : Typed} (port : Int) {address : Ipv6} (hwhat : t.what = .bare address)
    (hmis : t.what.Misread) : ∃ front n, front ≠ [] ∧ 91 ∉ front ∧ front ≠ address.text ∧
      Sender.splitTyped t.text port = (front, n) := by
  obtain ⟨hspace, hbracket, -⟩ := bare_chars address
  rw [hwhat] at hmis
  obtain ⟨front, back, n, heq, hback, hn, hlow, hhigh⟩ := hmis
  have hcount : 1 ≤ front.count 58 := by
    have hcolons := address.colons
    rw [heq, List.count_append, List.count_cons_self, List.count_eq_zero.2 hback] at hcolons
    omega
  have hfront : front ≠ [] := by
    intro hnil
    simp [hnil] at hcount
  refine ⟨front, n, hfront, fun h => hbracket (by rw [heq]; simp [h]), fun hsame => ?_, ?_⟩
  · have hlength := congrArg List.length (hsame.trans heq)
    simp at hlength
  · have hfrontSpace : ∀ c ∈ front, QString.isSpace c = false := by
      intro c hc
      exact hspace c (by rw [heq]; simp [hc])
    unfold Typed.text
    rw [hwhat]
    simp only [Spelling.text]
    rw [splitTyped_trim hspace, heq]
    refine splitTyped_port hfrontSpace (by rw [← heq]; exact hbracket) (fun c hc => ?_) hfront hback
      (QString.toInt_magnitude hn (by omega)) (by omega) (by omega)
    exact hspace c (by rw [heq]; simp [hc])

omit [Qt] in
/-- The last group does not read as a port. -/
theorem splitTyped_bare {t : Typed} (port : Int) {address : Ipv6} (hwhat : t.what = .bare address)
    (hmis : ¬ t.what.Misread) : Sender.splitTyped t.text port = (address.text, port) := by
  obtain ⟨hspace, -, hcolon⟩ := bare_chars address
  obtain ⟨front, back, heq, hback, -⟩ := QString.exists_lastIndexOf hcolon
  have hread : QString.toInt back = (QString.magnitude back).bind fun n =>
      if n < 2 ^ 31 then some (n : Int) else none := by
    refine QString.toInt_eq fun c hc => ?_
    have hc := isIpv6Char_tight (address.chars c (by rw [heq]; simp [hc]))
    exact ⟨hc.1, hc.2.1, hc.2.2.1⟩
  unfold Typed.text
  rw [hwhat]
  simp only [Spelling.text]
  rw [splitTyped_trim hspace]
  refine splitTyped_whole hspace (.inr (.inr ⟨front, back, heq, hback, fun n hn hport => ?_⟩))
  rw [hread] at hn
  obtain ⟨k, hk, hkn⟩ := Option.bind_eq_some_iff.1 hn
  split at hkn
  · have hcast : (k : Int) = n := by simpa using hkn
    refine hmis ?_
    rw [hwhat]
    exact ⟨front, back, k, heq, hback, hk, by omega, by omega⟩
  · exact absurd hkn (by simp)

theorem understood_bare {t : Typed} {w : Sender} (port : Int) {address : Ipv6}
    (hidle : w.discovery.manualPending = 0) (hwhat : t.what = .bare address) :
    t.Understood port w ↔ ¬ t.what.Misread := by
  obtain ⟨hspace, hbracket, hcolon⟩ := bare_chars address
  by_cases hmis : t.what.Misread
  · refine iff_of_false (fun h => ?_) (not_not_intro hmis)
    obtain ⟨front, n, hfront, hplain, hother, hsplit⟩ := splitTyped_misread port hwhat hmis
    have hmeant := understood_host hidle hfront hsplit h
    rw [unbracketed_plain hplain, hwhat] at hmeant
    exact hother hmeant
  · refine iff_of_true ?_ hmis
    have hport : t.what.port = none := by
      rw [hwhat]
      rfl
    rw [understood_iff hidle (List.ne_nil_of_mem hcolon) (tight_of hspace)
      (splitTyped_bare port hwhat hmis) (portOr_beside hport), unbracketed_plain hbracket, hwhat]
    rfl

theorem understood_bracketed {t : Typed} {w : Sender} (port : Int) {address : Ipv6}
    {typed : Option PortText} (hidle : w.discovery.manualPending = 0)
    (hwhat : t.what = .bracketed address typed) : t.Understood port w ↔ typed = none := by
  obtain ⟨haddress, hbracket, -⟩ := bare_chars address
  have hspace : ∀ c ∈ 91 :: (address.text ++ 93 :: portText typed), QString.isSpace c = false := by
    intro c hc
    simp only [List.mem_cons, List.mem_append] at hc
    rcases hc with rfl | hc | rfl | hc
    · decide
    · exact haddress c hc
    · decide
    · cases typed with
      | none => simp [portText] at hc
      | some typed =>
        rcases List.mem_cons.1 hc with rfl | hc
        · decide
        · exact (QString.isDigit_plain ((QString.magnitude_digits typed.reads).2 c hc)).1
  have hsplit : Sender.splitTyped t.text port =
      (91 :: (address.text ++ 93 :: portText typed), port) := by
    unfold Typed.text
    rw [hwhat]
    simp only [Spelling.text]
    rw [splitTyped_trim hspace]
    exact splitTyped_whole hspace (.inl (by simp))
  cases typed with
  | none =>
    refine iff_of_true ?_ rfl
    rw [understood_iff hidle (by simp) (tight_of hspace) hsplit (portOr_beside (by rw [hwhat]; rfl)),
      hwhat]
    simp [QUrl.unbracketed, portText, Spelling.host]
  | some typed =>
    -- the port stays with the host
    refine iff_of_false ?_ (by simp)
    intro h
    have hmeant := understood_host hidle (by simp) hsplit h
    have hlast : (address.text ++ 93 :: portText (some typed)).getLast? ≠ some 93 := by
      have hdigits := QString.magnitude_digits typed.reads
      obtain ⟨d, hd⟩ := Option.isSome_iff_exists.1 (List.getLast?_isSome.2 hdigits.1)
      have hd93 := (QString.isDigit_plain (hdigits.2 d (List.mem_of_getLast? hd))).2.2.2.2.2
      simp [portText, List.getLast?_append, List.getLast?_cons, hd, hd93]
    rw [QUrl.unbracketed, if_neg hlast, hwhat] at hmeant
    have htext : 91 :: (address.text ++ 93 :: portText (some typed)) = address.text := hmeant
    exact hbracket (htext ▸ List.mem_cons_self)

/-- An address is probed and kept as it was meant if and only if it is not misread: it is no bare
IPv6 literal whose last group reads as a port, and no bracketed one with a port. -/
theorem typed_address_iff (t : Typed) (port : Int) (w : Sender)
    (hidle : w.discovery.manualPending = 0) : t.Understood port w ↔ ¬ t.what.Misread := by
  cases hwhat : t.what with
  | ipv4 a b c d typed =>
    refine iff_of_true ?_ fun h => h
    have hne : ipv4 a b c d ≠ [] := by simp [ipv4]
    refine understood_plain port hidle hne (fun e he => ?_) (by rw [hwhat]; rfl) (by rw [hwhat]; rfl)
      (by rw [hwhat]; rfl)
    rcases ipv4_chars he with he | rfl
    · have he := QString.isDigit_plain he
      exact ⟨he.1, he.2.2.2.1, he.2.2.2.2.1⟩
    · decide
  | name host typed =>
    refine iff_of_true ?_ fun h => h
    refine understood_plain port hidle host.nonempty
      (fun c hc => isNameChar_tight (host.chars c hc)) (by rw [hwhat]; rfl) (by rw [hwhat]; rfl)
      (by rw [hwhat]; rfl)
  | bare address =>
    rw [understood_bare port hidle hwhat, hwhat]
  | bracketed address typed =>
    rw [understood_bracketed port hidle hwhat]
    cases typed with
    | none => exact iff_of_true rfl fun h => h
    | some typed => exact iff_of_false (by simp) fun h => h trivial

end

section

local instance typedQt : Qt := Ascii.qt [] []

def bareAddress : Typed where
  before := ⟨[], by simp⟩
  what := .bare ⟨str "fe80::1", List.all_eq_true.1 (by decide), by decide⟩
  after := ⟨[], by simp⟩

def hostAndPort : Typed where
  before := ⟨str " ", List.all_eq_true.1 (by decide)⟩
  what := .name ⟨str "desk.lan", by decide, List.all_eq_true.1 (by decide)⟩
    (some ⟨str "8080", 8080, by decide, by decide, by decide⟩)
  after := ⟨[], by simp⟩

theorem typed_address_desk :
    hostAndPort.Understood 0 (Sender.fresh .trusting fun _ => none) :=
  (typed_address_iff hostAndPort 0 (Sender.fresh .trusting fun _ => none) rfl).2 nofun

/-- The link-local address is taken for the host `fe80:` and the port 1. -/
theorem bare_address_split :
    ¬ ∀ (t : Typed) (port : Int) (w : Sender), w.discovery.manualPending = 0 →
      t.Understood port w := by
  intro h
  obtain ⟨host, hmeant, -, hendpoint, -⟩ :=
    h bareAddress 0 (Sender.fresh .trusting fun _ => none) rfl
  have hhost : str "fe80:" = host := by
    have hsplit : (((Sender.fresh .trusting fun _ => none).addTyped
        bareAddress.text 0).discovery.manualEndpoint).1 = str "fe80:" := by decide +kernel
    rw [hendpoint] at hsplit
    exact hsplit.symm
  rw [← hhost] at hmeant
  revert hmeant
  decide

end

end LocalSend
