import LocalSend.Receive.Proof.Authority
import LocalSend.Receive.Proof.Lifecycle

/-!
# A blocked key

A prepare-upload is looked up in the block list by the fingerprint it claims, which has been compared
with the certificate before. Both fold case the same way, and a fingerprint is upper-case hex, so a
client whose certificate is blocked, in whatever letter case, is answered with a refusal, and nothing
but its connection and what is counted of wrong PINs changes (`blocked_refused`).
-/

set_option autoImplicit false

namespace LocalSend

/-! ## Fingerprints -/

namespace Ascii

theorem toNat_upper (c : QChar) :
    (upper c).toNat = if 97 ≤ c.toNat ∧ c.toNat ≤ 122 then c.toNat - 32 else c.toNat := by
  unfold upper
  simp only [Bool.and_eq_true, decide_eq_true_eq, UInt16.le_iff_toNat_le, UInt16.reduceToNat]
  split
  · rw [UInt16.toNat_sub_of_le]
    · rfl
    · rw [UInt16.le_iff_toNat_le]
      simp only [UInt16.reduceToNat]
      omega
  · rfl

theorem upper_upper (c : QChar) : upper (upper c) = upper c := by
  refine UInt16.toNat_inj.1 ?_
  rw [toNat_upper, toNat_upper]
  split
  · rw [if_neg (by omega)]
  · rfl

theorem ascii_of_upper {c : QChar} (h : (upper c).toNat < 0x80) : c.toNat < 0x80 := by
  rw [toNat_upper] at h
  split at h <;> omega

end Ascii

theorem plainChar_upper {c : QChar} (h : Crypto.isHexChar c = true) :
    Crypto.PlainChar (Ascii.upper c) := by
  simp only [Crypto.isHexChar, Bool.or_eq_true, Bool.and_eq_true, decide_eq_true_eq,
    UInt16.le_iff_toNat_le, UInt16.reduceToNat] at h
  have hnat := Ascii.toNat_upper c
  refine ⟨by split at hnat <;> omega, fun hq => ?_⟩
  have hq' := congrArg UInt16.toNat hq
  simp only [UInt16.reduceToNat] at hq'
  split at hnat <;> omega

section
variable [Qt]

/-- A fingerprint is upper-case hex. -/
theorem fingerprintOf_plain (certificate : QByteArray) :
    (∀ c ∈ Certificate.fingerprintOf certificate, Crypto.PlainChar c) ∧
      (Certificate.fingerprintOf certificate).map Ascii.upper =
        Certificate.fingerprintOf certificate := by
  unfold Certificate.fingerprintOf
  split
  · exact ⟨fun c hc => absurd hc List.not_mem_nil, rfl⟩
  · have hhex := Crypto.toHex_isHexChar (Qt.sha256 certificate)
    constructor
    · intro c hc
      obtain ⟨d, hd, rfl⟩ := List.mem_map.1 hc
      exact plainChar_upper (hhex d hd)
    · refine (List.map_map ..).trans (List.map_congr_left fun d _ => ?_)
      exact Ascii.upper_upper d

/-- Whoever claims the fingerprint of a certificate that is blocked is blocked. -/
theorem claimed_blocked
    (hascii : ∀ s : QString, (∀ c ∈ s, c.toNat < 0x80) → Qt.toUpper s = s.map Ascii.upper)
    {k : KnownDevices} {certificate : QByteArray} {spelling claimed : QString}
    (hspelling : spelling.map Ascii.upper = Certificate.fingerprintOf certificate)
    (hblocked : k.isBlocked spelling = true)
    (hclaimed : Crypto.equalsFold (Certificate.fingerprintOf certificate) claimed = true) :
    k.isBlocked claimed = true := by
  obtain ⟨hplain, hupper⟩ := fingerprintOf_plain certificate
  generalize Certificate.fingerprintOf certificate = fingerprint at *
  have hfold : Qt.toUpper fingerprint = fingerprint :=
    (hascii _ fun c hc => (hplain c hc).1).trans hupper
  have hspelled : Qt.toUpper spelling = fingerprint := by
    refine (hascii _ fun c hc => Ascii.ascii_of_upper ?_).trans hspelling
    exact (hplain _ (hspelling ▸ List.mem_map_of_mem hc)).1
  have hsame : Qt.toUpper claimed = fingerprint := by
    unfold Crypto.equalsFold at hclaimed
    rw [hfold] at hclaimed
    exact ((Crypto.equals_plain hplain).1 hclaimed).symm
  unfold KnownDevices.isBlocked KnownDevices.entryOf at hblocked ⊢
  rw [hspelled] at hblocked
  rw [hsame]
  obtain ⟨hne, hentry⟩ := (Bool.and_eq_true _ _).mp hblocked
  refine (Bool.and_eq_true _ _).mpr ⟨decide_eq_true fun hnil => ?_, hentry⟩
  have hempty : Qt.toUpper ([] : QString) = [] := hascii [] fun c hc => absurd hc List.not_mem_nil
  rw [hnil, hempty] at hsame
  rw [← hsame] at hspelling
  exact of_decide_eq_true hne (List.map_eq_nil_iff.1 hspelling)

end

/-! ## Every way out -/

namespace World

section
variable [Qt] {w u : World} {i : ConnId}

/-- `u` is answered on `i` with a refusal, or that there is nothing to do; nothing else is changed but
the count of wrong PINs. -/
def Rebuffed (i : ConnId) (w v : World) : Prop := ∃ c limiter,
  v = { w.setConn i c with pinAttempts := limiter } ∧ c.state = .responded ∧
    ((w.conns i).connected = true → ∃ r, c.sent = (w.conns i).sent ++ [.response r] ∧
      (r.status = 204 ∨ 400 ≤ r.status))

theorem Loose.rebuff (h : Loose i w) (hst : (w.conns i).state ≠ .responded)
    (limiter : RateLimiter) (headers : List (QByteArray × QByteArray)) {status : Nat}
    (hs : status = 204 ∨ 400 ≤ status) : Rebuffed i w (World.respond i status { w.setConn i {
      w.conns i with extraHeaders := headers } with pinAttempts := limiter }) := by
  obtain ⟨v, hv⟩ : ∃ v, v = { w.setConn i { w.conns i with extraHeaders := headers } with
      pinAttempts := limiter } := ⟨_, rfl⟩
  have hloose : Loose i v := by
    rw [hv]
    exact ⟨h.pending, h.upload⟩
  have hget : v.conns i = { w.conns i with extraHeaders := headers } := by
    rw [hv]
    exact conns_setConn _ _ _
  obtain ⟨c, hc, hresponded, hsent⟩ := hloose.respond status [] jsonType
  rw [hget] at hsent
  rw [← hv]
  refine ⟨c, limiter, ?_, hresponded, fun hconn => ⟨⟨status, jsonType, headers, []⟩, ?_, hs⟩⟩
  · refine hc.trans ?_
    rw [hv, ← setConn_setConn w i { w.conns i with extraHeaders := headers } c]
    rfl
  · refine (hsent hst).trans ?_
    rw [if_pos hconn]

/-- Of the checks of a prepare-upload one turns it away. -/
theorem handlePrepareUpload_rebuffed (h : Loose i w) (hst : (w.conns i).state ≠ .responded)
    (hpath : (w.conns i).path = endpoint Protocol.PathPrepareUpload)
    (hbarred : ∀ claimed, fingerprintVerified (w.conns i) claimed = true →
      w.known.isBlocked claimed = true) : Rebuffed i w (w.handlePrepareUpload i) := by
  have hnever : ¬ w.Takes i := by
    intro htakes
    exact absurd ((hbarred _ htakes.verified).symm.trans htakes.unblocked) (by decide)
  have hprepares := handlePrepareUpload_prepares w i
  generalize w.handlePrepareUpload i = v at hprepares ⊢
  cases hprepares with
  | refused limiter headers hs => exact h.rebuff hst limiter headers hs
  | accepted _ _ htakes => exact absurd (htakes hpath) hnever
  | prompted _ _ htakes => exact absurd (htakes hpath) hnever

/-- A client whose certificate is blocked, in whatever letter case, is answered with an error or 204
whatever its prepare-upload says, and nothing else changes but the count of wrong PINs: no prompt, no
session, no pairing, no device, no transfer. -/
theorem blocked_refused
    (hascii : ∀ s : QString, (∀ c ∈ s, c.toNat < 0x80) → Qt.toUpper s = s.map Ascii.upper)
    (h : Lib.Reached system w) {data : QByteArray} (hc : w.Completes i data)
    (hpath : ((w.heard i data).conns i).path = endpoint Protocol.PathPrepareUpload)
    {certificate : QByteArray} (hcertificate : (w.conns i).peerCertificate = some certificate)
    {spelling : QString} (hspelling : spelling.map Ascii.upper = Certificate.fingerprintOf certificate)
    (hblocked : w.known.isBlocked spelling = true) :
    ∃ c limiter, w.step (.readyRead i data) = { w.setConn i c with pinAttempts := limiter } ∧
      c.state = .responded ∧
      (((w.heard i data).conns i).connected = true →
        ∃ r, c.sent = ((w.heard i data).conns i).sent ++ [.response r] ∧
          (r.status = 204 ∨ 400 ≤ r.status)) := by
  have hinv := reached_inv h
  obtain ⟨hloose, ha, heq, hreading⟩ := prepare_heard hinv hc hpath
  have hkept := ((hc.reads hinv).1.acts.kept hinv).2 i (born_of_live hc.1)
  have hbarred : ∀ claimed, fingerprintVerified ((w.heard i data).conns i) claimed = true →
      (w.heard i data).known.isBlocked claimed = true := by
    intro claimed hclaimed
    have hknown : (w.heard i data).known = w.known := by
      obtain ⟨d, hd⟩ := ha
      rw [hd]
      rfl
    unfold fingerprintVerified at hclaimed
    rw [hkept.certificate, hcertificate] at hclaimed
    rw [hknown]
    exact claimed_blocked hascii hspelling hblocked hclaimed
  have hunanswered : ((w.heard i data).conns i).state ≠ .responded := by
    rw [hreading]
    exact State.noConfusion
  obtain ⟨c, limiter, hset, hst, hsent⟩ :=
    handlePrepareUpload_rebuffed (hloose.alone ha) hunanswered hpath hbarred
  refine ⟨c, limiter, ?_, hst, hsent⟩
  obtain ⟨d, hd⟩ := ha
  rw [heq, hset]
  generalize w.heard i data = u at hd
  rw [hd, setConn_setConn]

end

/-! ## A nuisance that is blocked -/

section

local instance barredQt : Qt := Ascii.qt [(Ascii.json oneFile, oneFile)] [([7], [0xab, 0x12])]

/-- A key is blocked, and then its holder connects. -/
def barredEvents : List Event := [
  .setBlocked (str "aB12") (str "laptop") true,
  .startListening,
  .connect (str "10.0.0.2") (some [7])]

theorem laptop_refused : ∃ c limiter,
    (barredEvents.foldl step secureStart).step
        (.readyRead 0 (post prepareTarget (Ascii.json oneFile))) =
      { (barredEvents.foldl step secureStart).setConn 0 c with pinAttempts := limiter } ∧
    c.state = .responded := by
  have hreached : Lib.Reached system (barredEvents.foldl step secureStart) :=
    .run_any _ (.start (fresh_start .obliging countingSource (by decide)))
  have hcompletes : (barredEvents.foldl step secureStart).Completes 0
      (post prepareTarget (Ascii.json oneFile)) := by
    refine ⟨?_, ?_, ?_⟩ <;> decide +kernel
  have hpath : (((barredEvents.foldl step secureStart).heard 0
      (post prepareTarget (Ascii.json oneFile))).conns 0).path =
        endpoint Protocol.PathPrepareUpload := by decide +kernel
  have hcertificate : ((barredEvents.foldl step secureStart).conns 0).peerCertificate = some [7] := by
    decide +kernel
  have hspelling : (str "Ab12").map Ascii.upper = Certificate.fingerprintOf [7] := by decide +kernel
  have hblocked : (barredEvents.foldl step secureStart).known.isBlocked (str "Ab12") = true := by
    decide +kernel
  obtain ⟨c, limiter, hstep, hst, -⟩ := blocked_refused (fun _ _ => rfl) hreached hcompletes hpath
    hcertificate hspelling hblocked
  exact ⟨c, limiter, hstep, hst⟩

end

end World

end LocalSend
