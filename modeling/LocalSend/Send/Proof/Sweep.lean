import Mathlib.Data.List.DropRight
import Mathlib.Data.List.Nodup
import LocalSend.Qt.Ascii
import LocalSend.Send.Proof.Unswept

/-!
# What a sweep counts

`Sweep` is the sending side with a record of the sweep last begun: what there was to try, what was
tried, and whether it was cancelled. The counters of `Discovery` are tied to that record and to the
probes that are under way (`Ledger`).
-/

set_option autoImplicit false

namespace LocalSend

theorem nodup_eraseDups {α : Type} [BEq α] [LawfulBEq α] (l : List α) : l.eraseDups.Nodup := by
  induction hn : l.length using Nat.strongRecOn generalizing l with
  | ind n ih =>
    cases l with
    | nil => exact .nil
    | cons a l =>
      rw [List.eraseDups_cons, List.nodup_cons, List.mem_eraseDups]
      refine ⟨by simp, ih _ ?_ _ rfl⟩
      rw [← hn, List.length_cons]
      exact Nat.lt_succ_of_le (List.length_filter_le _ _)
namespace Sender

/-! ## What there is to try -/

/-- The number that digits stand for. -/
def numeral (digits : QString) : Nat := digits.foldl (fun n c => 10 * n + (c.toNat - 48)) 0

theorem numbers_nodup : ((List.range' 1 254).map QString.number).Nodup := by
  have hread : ((List.range' 1 254).map QString.number).map numeral = List.range' 1 254 := by
    decide +kernel
  refine List.Nodup.of_map numeral ?_
  rw [hread]
  exact List.nodup_range'

theorem number_noDot : ∀ host ∈ List.range' 1 254, (46 : QChar) ∉ QString.number host := by
  decide +kernel

/-- The subnet of an address is read off it again. -/
theorem subnet_append (address : QString) {number : QString} (h : (46 : QChar) ∉ number) :
    subnet (subnet address ++ number) = subnet address := by
  have hdrop : ∀ c ∈ number.reverse, (c != 46) = true := by
    intro c hc
    simp only [bne_iff_ne]
    rintro rfl
    exact h (List.mem_reverse.1 hc)
  unfold subnet
  rw [List.reverse_append, List.reverse_reverse, List.dropWhile_append_of_pos hdrop,
    List.dropWhile_idempotent]

theorem scanTargets_nodup (mine : List QString) : (scanTargets mine).Nodup := by
  have hsubnet : ∀ s ∈ ((mine.map subnet).filter (·.length > 1)).eraseDups, ∃ a, subnet a = s := by
    intro s hs
    obtain ⟨a, -, ha⟩ := List.mem_map.1 (List.mem_of_mem_filter (List.mem_eraseDups.1 hs))
    exact ⟨a, ha⟩
  unfold scanTargets
  set subnets := ((mine.map subnet).filter (·.length > 1)).eraseDups
  have hsubnets : subnets.Nodup := nodup_eraseDups _
  have hschemes : str "https" ≠ str "http" := by decide
  have hread : ∀ s ∈ subnets, ∀ x ∈ ((List.range' 1 254).map fun host => s ++ QString.number host).filter
      (fun address => address ∉ mine), subnet x = s := by
    intro s hs x hx
    obtain ⟨host, hhost, rfl⟩ := List.mem_map.1 (List.mem_of_mem_filter hx)
    obtain ⟨a, rfl⟩ := hsubnet s hs
    exact subnet_append a (number_noDot host hhost)
  have haddresses : (subnets.flatMap fun s =>
      ((List.range' 1 254).map fun host => s ++ QString.number host).filter
        fun address => address ∉ mine).Nodup := by
    refine List.nodup_flatMap.2 ⟨fun s _ => ?_, ?_⟩
    · have hnumbers := numbers_nodup.map (List.append_right_injective s)
      rw [List.map_map] at hnumbers
      exact hnumbers.filter _
    · refine (List.nodup_iff_pairwise_ne.1 hsubnets).imp_of_mem fun {s s'} hs hs' hne x hx hx' => hne ?_
      exact (hread s hs x hx).symm.trans (hread s' hs' x hx')
  refine List.nodup_flatMap.2 ⟨fun address _ => by simp [hschemes], haddresses.imp ?_⟩
  intro a b hne x hx hx'
  simp only [List.mem_cons, List.not_mem_nil, or_false] at hx hx'
  rcases hx with rfl | rfl <;> rcases hx' with hx' | hx' <;>
    exact hne (Prod.mk.inj hx').2
section
variable [Qt] {w : Sender} {q : QNetworkRequest}

/-! ## Filling the window -/

/-- These targets are tried, and count as under way. -/
structure Pumps (targets : List (QString × QString)) (w v : Sender) : Prop where
  tries : Tries targets w v
  numbered : v.Numbered
  card : v.scans.card = w.scans.card + targets.length

omit [Qt] in
theorem Numbered.probe (h : w.Numbered) (hq : q.slot = .scanned) :
    Pumps [(q.scheme, q.host)] w (w.post q) := by
  refine ⟨⟨[_], rfl, ?_⟩, h.post q, ?_⟩
  · obtain ⟨_, _, _, _, _, slot⟩ := q
    obtain rfl : slot = .scanned := hq
    rfl
  · have hnew : w.nextReply ∉ w.scans := fun hmem => by
      obtain ⟨r, hr, -⟩ := h.mem_scans.1 hmem
      cases (h.fresh _ (Nat.le_refl _)).symm.trans hr
    have hscans : (w.post q).scans = insert w.nextReply w.scans := by
      ext j
      rw [(h.post q).mem_scans, Finset.mem_insert, h.mem_scans]
      by_cases hj : j = w.nextReply
      · subst hj
        rw [post_self]
        simp [hq, ReplySlot.isScan]
      · rw [post_ne hj]
        simp [hj]
    rw [hscans, Finset.card_insert_of_notMem hnew]
    rfl

theorem pumpQueue_pumps (queue : List (QString × QString)) (h : w.Numbered) :
    ∃ tried rest, queue = tried ++ rest ∧ Pumps tried w (pumpQueue queue w) ∧
      (pumpQueue queue w).discovery = { w.discovery with
        scanQueue := rest
        scanInFlight := w.discovery.scanInFlight + tried.length } ∧
      (w.discovery.scanInFlight ≤ ScanWindow →
        w.discovery.scanInFlight + tried.length ≤ ScanWindow) ∧
      (rest ≠ [] → ScanWindow ≤ w.discovery.scanInFlight + tried.length) := by
  induction queue generalizing w with
  | nil => exact ⟨[], [], rfl, ⟨.same rfl, ⟨h.fresh, h.reply⟩, rfl⟩, rfl, id, fun hne => absurd rfl hne⟩
  | cons target queue ih =>
    obtain ⟨scheme, host⟩ := target
    unfold pumpQueue
    split
    · rename_i hroom
      extract_lets v
      have hv : Pumps [(scheme, host)] w v := h.probe (q := ⟨scheme, host, w.settings.port,
        .acceptUnknown, .introduction w.registerBody, .scanned⟩) rfl
      set u : Sender := { v with
        discovery := { v.discovery with scanInFlight := v.discovery.scanInFlight + 1 } } with hu
      have hnumbered : u.Numbered := ⟨hv.numbered.fresh, hv.numbered.reply⟩
      obtain ⟨tried, rest, rfl, hpumps, hd, hwindow, hfull⟩ := ih hnumbered
      have hinflight : u.discovery.scanInFlight = w.discovery.scanInFlight + 1 := rfl
      rw [hinflight] at hwindow hfull hd
      refine ⟨(scheme, host) :: tried, rest, rfl, ⟨hv.tries.trans hpumps.tries, hpumps.numbered, ?_⟩,
        ?_, fun _ => ?_, fun hne => ?_⟩
      · rw [hpumps.card]
        change v.scans.card + _ = _
        rw [hv.card]
        simp only [List.length_cons, List.length_nil]
        omega
      · rw [hd, List.length_cons, Nat.add_assoc, Nat.add_comm 1]
        rfl
      · have := hwindow hroom
        rw [List.length_cons]
        omega
      · have := hfull hne
        rw [List.length_cons]
        omega
    · rename_i hfull
      refine ⟨[], (scheme, host) :: queue, rfl, ⟨.same rfl, ⟨h.fresh, h.reply⟩, rfl⟩, rfl, id,
        fun _ => Nat.le_of_not_lt hfull⟩

end

end Sender

/-- The sending side, and the sweep that was begun last. -/
structure Sweep where
  sender : Sender
  targets : List (QString × QString)
  tried : List (QString × QString)
  cancelled : Bool
  /-- How many sweeps were begun. -/
  begun : Nat

namespace Sweep

open Sender

section
variable [Qt]

/-- What the sweep that this event begins has to try. -/
def begins (w : Sender) : SenderEvent → Option (List (QString × QString))
  | .scanSubnet mine =>
    if w.discovery.scanning ∨ scanTargets mine = [] then none else some (scanTargets mine)
  | _ => none

/-- The sweep under way is cancelled. -/
def cancels (w : Sender) : SenderEvent → Bool
  | .cancelScan => w.discovery.scanning
  | _ => false

def tries (w : Sender) (e : SenderEvent) : List (QString × QString) :=
  ((w.step e).log.drop w.log.length).filterMap (·.what.target?)

def next (s : Sweep) (e : SenderEvent) : Sweep :=
  match begins s.sender e with
  | some targets => ⟨s.sender.step e, targets, tries s.sender e, false, s.begun + 1⟩
  | none => ⟨s.sender.step e, s.targets, s.tried ++ tries s.sender e,
    s.cancelled || cancels s.sender e, s.begun⟩

def system : Lib.System Sweep SenderEvent :=
  ⟨fun s => s.sender.Start ∧ s.targets = [] ∧ s.tried = [] ∧ s.cancelled = false ∧ s.begun = 0, next⟩

/-- The counters, the queue and the probes under way are those of the sweep. -/
structure Ledger (s : Sweep) : Prop where
  numbered : s.sender.Numbered
  card : s.sender.scans.card = s.sender.discovery.scanInFlight
  window : s.sender.discovery.scanInFlight ≤ ScanWindow
  total : s.sender.discovery.scanning = true → s.sender.discovery.scanTotal = s.targets.length
  done : s.sender.discovery.scanning = true →
    s.sender.discovery.scanDone + s.sender.discovery.scanInFlight = s.tried.length
  order : if s.cancelled then s.sender.discovery.scanQueue = [] ∧ s.tried <+: s.targets
    else s.tried ++ s.sender.discovery.scanQueue = s.targets
  begun : s.begun =
    s.sender.discovery.scanFinishes + if s.sender.discovery.scanning then 1 else 0
  distinct : s.targets.Nodup

structure Inv (s : Sweep) : Prop extends Ledger s where
  idle : s.sender.discovery.scanning = false →
    s.sender.discovery.scanQueue = [] ∧ s.sender.discovery.scanInFlight = 0
  running : s.sender.discovery.scanning = true → 0 < s.sender.discovery.scanInFlight

variable {s : Sweep} {v : Sender}

theorem tries_eq {w : Sender} {e : SenderEvent} {targets : List (QString × QString)}
    (h : Tries targets w (w.step e)) : tries w e = targets := by
  obtain ⟨l, hl, rfl⟩ := h
  rw [tries, hl, List.drop_left]

omit [Qt] in
theorem Inv.unswept (h : s.Inv) (hv : Unswept s.sender v) : Inv { s with sender := v } := by
  have hsweep := hv.sweep
  simp only [Discovery.sweep, Prod.mk.injEq] at hsweep
  obtain ⟨hqueue, htotal, hdone, hflight, hscanning, hfinishes⟩ := hsweep
  refine ⟨⟨hv.numbered h.numbered, ?_, ?_, ?_, ?_, ?_, ?_, h.distinct⟩, ?_, ?_⟩ <;>
    simp only [hqueue, htotal, hdone, hflight, hscanning, hfinishes]
  · rw [hv.scans h.numbered]
    exact h.card
  · exact h.window
  · exact h.total
  · exact h.done
  · exact h.order
  · exact h.begun
  · exact h.idle
  · exact h.running

theorem Ledger.pump (h : s.Ledger) (hs : s.sender.discovery.scanning = true) :
    ∃ tried, Tries tried s.sender s.sender.pumpScanQueue ∧
      Inv { s with sender := s.sender.pumpScanQueue, tried := s.tried ++ tried } := by
  obtain ⟨tried, rest, hqueue, hpumps, hd, hwindow, hfull⟩ :=
    pumpQueue_pumps s.sender.discovery.scanQueue h.numbered
  unfold pumpScanQueue
  extract_lets v
  have hv : v = pumpQueue s.sender.discovery.scanQueue s.sender := if_pos hs
  rw [← hv] at hpumps hd
  have hledger : Ledger { s with sender := v, tried := s.tried ++ tried } := by
    refine ⟨hpumps.numbered, ?_, ?_, ?_, ?_, ?_, ?_, h.distinct⟩ <;> simp only [hd]
    · rw [hpumps.card, h.card]
    · exact hwindow h.window
    · exact h.total
    · intro _
      have := h.done hs
      rw [List.length_append]
      omega
    · have horder := h.order
      cases hc : s.cancelled with
      | true =>
        simp only [hc, if_true] at horder ⊢
        rw [horder.1] at hqueue
        obtain ⟨rfl, rfl⟩ := List.append_eq_nil_iff.1 hqueue.symm
        exact ⟨rfl, by rw [List.append_nil]; exact horder.2⟩
      | false =>
        simp only [hc, Bool.false_eq_true, if_false] at horder ⊢
        rw [List.append_assoc, ← hqueue]
        exact horder
    · exact h.begun
  have hscanning : v.discovery.scanning = true := by rw [hd]; exact hs
  split
  · rename_i hend
    have htries : Tries tried s.sender v.finishScan := hpumps.tries
    refine ⟨tried, htries, ⟨⟨⟨hpumps.numbered.fresh, hpumps.numbered.reply⟩,
      hledger.card, hledger.window, nofun, nofun, hledger.order, ?_, h.distinct⟩, fun _ => ⟨hend.2.1, hend.2.2⟩, nofun⟩⟩
    have hbegun := hledger.begun
    simp only [hscanning, if_true] at hbegun
    exact hbegun
  · rename_i hgoes
    refine ⟨tried, hpumps.tries, hledger, ?_, fun _ => ?_⟩
    · intro hidle
      cases hscanning.symm.trans hidle
    · by_cases hrest : rest = []
      · have hqueue : v.discovery.scanQueue = [] := by rw [hd]; exact hrest
        exact Nat.pos_of_ne_zero fun hzero => hgoes ⟨hscanning, hqueue, hzero⟩
      · have hmany := hfull hrest
        have hflight : v.discovery.scanInFlight = s.sender.discovery.scanInFlight + tried.length := by
          rw [hd]
        simp only [hflight, ScanWindow] at hmany ⊢
        omega

/-! ## Every event -/

/-- Nothing is begun or cancelled, and the sweep does not notice. -/
theorem Inv.passed (h : s.Inv) {e : SenderEvent} (hbegins : begins s.sender e = none)
    (hcancels : cancels s.sender e = false) (hv : Unswept s.sender (s.sender.step e)) :
    (s.next e).Inv := by
  have htries := tries_eq hv.tries
  have hnext : s.next e = { s with sender := s.sender.step e } := by
    simp only [next, hbegins, hcancels, htries, List.append_nil, Bool.or_false]
  rw [hnext]
  exact h.unswept hv

theorem Inv.scanSubnet (h : s.Inv) (mine : List QString) : (s.next (.scanSubnet mine)).Inv := by
  by_cases hs : s.sender.discovery.scanning = true
  · refine h.passed (by simp [begins, hs]) rfl ?_
    have hsame : s.sender.step (.scanSubnet mine) = s.sender := if_pos hs
    rw [hsame]
    exact .refl _
  · obtain ⟨hqueue, hflight⟩ := h.idle (eq_false_of_ne_true hs)
    by_cases htargets : scanTargets mine = []
    · refine h.passed (by simp [begins, htargets]) rfl ?_
      have hstep : s.sender.step (.scanSubnet mine) = { s.sender with
          discovery := { s.sender.discovery with scanQueue := scanTargets mine } } := by
        simp only [step, Sender.scanSubnet, if_neg hs, if_pos htargets]
      rw [hstep]
      exact .same (fun _ => rfl) rfl (.inl rfl) (by simp [Discovery.sweep, htargets, hqueue]) rfl
    · set w : Sender := { s.sender with discovery := { s.sender.discovery with
        scanQueue := scanTargets mine
        scanTotal := (scanTargets mine).length
        scanDone := 0
        scanInFlight := 0
        scanning := true } } with hw
      have hstep : s.sender.step (.scanSubnet mine) = w.pumpScanQueue := by
        simp only [step, Sender.scanSubnet, if_neg hs, if_neg htargets]
        rfl
      have hbegun := h.begun
      rw [if_neg hs, Nat.add_zero] at hbegun
      have hledger : Ledger ⟨w, scanTargets mine, [], false, s.begun + 1⟩ := by
        refine ⟨⟨h.numbered.fresh, h.numbered.reply⟩, h.card.trans hflight, Nat.zero_le _,
          fun _ => rfl, fun _ => rfl, rfl, ?_, scanTargets_nodup mine⟩
        rw [hbegun]
        rfl
      obtain ⟨tried, htries, hinv⟩ := hledger.pump rfl
      rw [← hstep] at htries hinv
      have heq : tries s.sender (.scanSubnet mine) = tried := tries_eq htries
      have hbegins : begins s.sender (.scanSubnet mine) = some (scanTargets mine) :=
        if_neg (by simp [hs, htargets])
      have hnext : s.next (.scanSubnet mine) = ⟨s.sender.step (.scanSubnet mine), scanTargets mine,
          [] ++ tried, false, s.begun + 1⟩ := by
        simp only [next, hbegins, heq, List.nil_append]
      rw [hnext]
      exact hinv

theorem Inv.cancelScan (h : s.Inv) : (s.next .cancelScan).Inv := by
  cases hs : s.sender.discovery.scanning with
  | false =>
    refine h.passed rfl hs ?_
    have hsame : s.sender.step .cancelScan = s.sender := if_pos (by simp [hs])
    rw [hsame]
    exact .refl _
  | true =>
    have hflight := h.running hs
    have hstep : s.sender.step .cancelScan = { s.sender with
        discovery := { s.sender.discovery with scanQueue := [] } } := by
      simp only [step, Sender.cancelScan, hs, not_true_eq_false, if_false]
      exact if_neg (Nat.ne_of_gt hflight)
    have htries : tries s.sender .cancelScan = [] :=
      tries_eq (.same (by rw [hstep]))
    have hnext : s.next .cancelScan = ⟨s.sender.step .cancelScan, s.targets, s.tried, true, s.begun⟩ := by
      simp only [next, begins, cancels, htries, List.append_nil, hs, Bool.or_true]
    rw [hnext, hstep]
    have horder : s.tried <+: s.targets := by
      have horder := h.order
      split at horder
      · exact horder.2
      · exact ⟨_, horder⟩
    exact ⟨⟨⟨h.numbered.fresh, h.numbered.reply⟩, h.card, h.window, h.total, h.done, ⟨rfl, horder⟩,
      h.begun, h.distinct⟩, fun hidle => ⟨rfl, (h.idle hidle).2⟩, h.running⟩

/-- A probe of the sweep is finished. -/
theorem Inv.scanned (h : s.Inv) {e : SenderEvent} {id : ReplyId} {r : QNetworkReply}
    (hr : s.sender.replies id = some r) (hslot : r.request.slot = .scanned)
    {error : Bool} {status : Nat} {errorString : QString} {body : QByteArray}
    (he : s.sender.step e = s.sender.finish id r error status errorString body)
    (hbegins : begins s.sender e = none) (hcancels : cancels s.sender e = false) :
    (s.next e).Inv := by
  have hmem : id ∈ s.sender.scans := h.numbered.mem_scans.2 ⟨r, hr, by rw [hslot]; rfl⟩
  have hflight : 0 < s.sender.discovery.scanInFlight := h.card ▸ Finset.card_pos.2 ⟨id, hmem⟩
  have hs : s.sender.discovery.scanning = true := by
    by_contra hidle
    exact Nat.ne_of_gt hflight (h.idle (eq_false_of_ne_true hidle)).2
  obtain ⟨m, hm⟩ := acceptRegisterReply_same r error body { s.sender.setReply id none with
    discovery := { s.sender.discovery with
      scanInFlight := s.sender.discovery.scanInFlight - 1
      scanDone := s.sender.discovery.scanDone + 1 } }
  set w : Sender := { s.sender.setReply id none with
    discovery := { s.sender.discovery with
      scanInFlight := s.sender.discovery.scanInFlight - 1
      scanDone := s.sender.discovery.scanDone + 1 }
    devices := m } with hw
  have hstep : s.sender.step e = w.pumpScanQueue := by
    rw [he]
    unfold finish
    rw [hslot]
    exact congrArg pumpScanQueue hm
  have hgone := h.numbered.gone id
  have hcard : w.scans.card = s.sender.discovery.scanInFlight - 1 := by
    rw [← h.card, ← Finset.card_erase_of_mem hmem, ← h.numbered.scans_gone]
    rfl
  have hledger : Ledger { s with sender := w } := by
    refine ⟨⟨hgone.fresh, hgone.reply⟩, hcard, Nat.le_trans (Nat.sub_le _ _) h.window, h.total,
      fun _ => ?_, h.order, h.begun, h.distinct⟩
    have hdone := h.done hs
    simp only [hw]
    omega
  obtain ⟨tried, htries, hinv⟩ := hledger.pump hs
  rw [← hstep] at htries hinv
  have heq : tries s.sender e = tried := tries_eq htries
  have hnext : s.next e = { s with sender := s.sender.step e, tried := s.tried ++ tried } := by
    simp only [next, hbegins, hcancels, heq, Bool.or_false]
  rw [hnext]
  exact hinv

/-- What becomes of a request, be it a probe of the sweep or not. -/
theorem Inv.replied (h : s.Inv) {e : SenderEvent} (he : e.isReply = true) : (s.next e).Inv := by
  have hbegins : begins s.sender e = none := by cases e <;> first | rfl | cases he
  have hcancels : cancels s.sender e = false := by cases e <;> first | rfl | cases he
  rcases step_reply he s.sender with heq | ⟨id, r, certificate, seen, hr, heq⟩ | ⟨id, r, error, status,
    errorString, body, hr, heq⟩
  · exact h.passed hbegins hcancels (by rw [heq]; exact .refl _)
  · exact h.passed hbegins hcancels (by rw [heq]; exact mark_unswept hr certificate seen)
  · cases hslot : r.request.slot.isScan with
    | false =>
      refine h.passed hbegins hcancels ?_
      rw [heq]
      exact finish_unswept hr hslot error status errorString body
    | true =>
      have hscanned : r.request.slot = .scanned := by
        cases hs : r.request.slot <;> rw [hs] at hslot <;> first | rfl | cases hslot
      exact h.scanned hr hscanned heq hbegins hcancels

theorem Inv.step (h : s.Inv) (e : SenderEvent) : (s.next e).Inv := by
  by_cases hreply : e.isReply = true
  · exact h.replied hreply
  cases e with
  | scanSubnet mine => exact h.scanSubnet mine
  | cancelScan => exact h.cancelScan
  | connects => exact absurd rfl hreply
  | answered => exact absurd rfl hreply
  | fails => exact absurd rfl hreply
  | _ => exact h.passed rfl rfl (step_unswept rfl s.sender)

omit [Qt] in
theorem Inv.start (h0 : s.sender.Start ∧ s.targets = [] ∧ s.tried = [] ∧ s.cancelled = false ∧
    s.begun = 0) : s.Inv := by
  obtain ⟨h, htargets, htried, hcancelled, hbegun⟩ := h0
  have hnumbered : s.sender.Numbered := ⟨by simp [h.replies], by simp [h.service]⟩
  have hscans : s.sender.scans = ∅ := by simp [scans, h.replies]
  have hscanning : s.sender.discovery.scanning = false := by rw [h.discovery]
  have hflight : s.sender.discovery.scanInFlight = 0 := by rw [h.discovery]
  have hqueue : s.sender.discovery.scanQueue = [] := by rw [h.discovery]
  have hfinishes : s.sender.discovery.scanFinishes = 0 := by rw [h.discovery]
  refine ⟨⟨hnumbered, ?_, ?_, ?_, ?_, ?_, ?_, ?_⟩, ?_, ?_⟩ <;>
    simp [hscans, hscanning, hflight, hqueue, hfinishes, htargets, htried, hcancelled, hbegun]

theorem Inv.reached (h : Lib.Reached system s) : s.Inv :=
  h.invariant (fun _ => .start) fun _ e hi _ => hi.step e

/-! ## What the counters tell -/

omit [Qt] in
theorem Ledger.counted (h : s.Ledger) (hs : s.sender.discovery.scanning = true)
    (hc : s.cancelled = false) :
    s.sender.discovery.scanDone + s.sender.discovery.scanInFlight +
      s.sender.discovery.scanQueue.length = s.sender.discovery.scanTotal := by
  have htotal := h.total hs
  have hdone := h.done hs
  have horder := h.order
  simp only [hc, Bool.false_eq_true, if_false] at horder
  have hlength := congrArg List.length horder
  rw [List.length_append] at hlength
  omega

omit [Qt] in
theorem Ledger.prefix_targets (h : s.Ledger) : s.tried <+: s.targets := by
  have horder := h.order
  split at horder
  · exact horder.2
  · exact ⟨_, horder⟩

omit [Qt] in
theorem Ledger.counted_le (h : s.Ledger) (hs : s.sender.discovery.scanning = true) :
    s.sender.discovery.scanDone + s.sender.discovery.scanInFlight ≤
      s.sender.discovery.scanTotal := by
  have htotal := h.total hs
  have hdone := h.done hs
  have hle := h.prefix_targets.length_le
  omega

omit [Qt] in
theorem Ledger.progress (h : s.Ledger) : s.sender.scanProgress ≤ 100 := by
  unfold scanProgress
  split
  · exact Nat.zero_le _
  · rename_i hs
    rw [not_or, not_not] at hs
    have hle := h.counted_le hs.1
    apply Nat.div_le_of_le_mul
    omega

/-- A sweep ends with nothing queued and nothing under way. -/
theorem Inv.finishes (h : s.Inv) {e : SenderEvent}
    (hf : s.sender.discovery.scanFinishes < (s.next e).sender.discovery.scanFinishes) :
    (s.next e).sender.discovery.scanning = false := by
  have hnext := h.step e
  have hbefore := h.begun
  have hafter := hnext.begun
  cases hb : begins s.sender e with
  | none =>
    have hsame : (s.next e).begun = s.begun := by simp only [next, hb]
    split at hbefore <;> split at hafter <;> first | omega | simp_all
  | some targets =>
    have hmore : (s.next e).begun = s.begun + 1 := by simp only [next, hb]
    have hidle : s.sender.discovery.scanning = false := by
      cases e <;> simp_all [begins]
    simp only [hidle, Bool.false_eq_true, if_false] at hbefore
    split at hafter
    · omega
    · simp_all

/-- What holds of the sweeps whenever the app is between two events. -/
structure Accounts (s : Sweep) : Prop where
  /-- The probes under way are counted, and fit into the window. -/
  flight : s.sender.scans.card = s.sender.discovery.scanInFlight
  window : s.sender.discovery.scanInFlight ≤ ScanWindow
  /-- Nothing is tried twice, and nothing that was not to be tried. -/
  once : s.targets.Nodup ∧ s.tried <+: s.targets
  /-- A sweep that is over and was not cancelled has tried everything. -/
  all : s.sender.discovery.scanning = false → s.cancelled = false → s.tried = s.targets
  counted : s.sender.discovery.scanning = true → s.cancelled = false →
    s.sender.discovery.scanDone + s.sender.discovery.scanInFlight +
      s.sender.discovery.scanQueue.length = s.sender.discovery.scanTotal
  countedLe : s.sender.discovery.scanning = true →
    s.sender.discovery.scanDone + s.sender.discovery.scanInFlight ≤ s.sender.discovery.scanTotal
  /-- What is done was tried by this sweep, as what is under way was. -/
  own : s.sender.discovery.scanning = true →
    s.sender.discovery.scanDone + s.sender.scans.card = s.tried.length
  progress : s.sender.scanProgress ≤ 100
  /-- Each sweep but the one that is on was finished once. -/
  finished : s.begun =
    s.sender.discovery.scanFinishes + if s.sender.discovery.scanning then 1 else 0
  /-- A sweep goes on as long as a probe is under way. -/
  goesOn : s.sender.discovery.scanning = true → s.sender.scans ≠ ∅

/-- The counters and the probes of the sweeps are accounted for, a sweep is finished with nothing
queued and nothing under way, and none is begun while a probe of another is under way. -/
theorem sweep_accounts (h : Lib.Reached system s) : s.Accounts ∧ ∀ e,
    (s.sender.discovery.scanFinishes < (s.next e).sender.discovery.scanFinishes →
      (s.next e).sender.discovery.scanQueue = [] ∧ (s.next e).sender.scans = ∅) ∧
    ((begins s.sender e).isSome = true → s.sender.scans = ∅) := by
  have hinv := Inv.reached h
  have hempty : ∀ {t : Sweep}, t.Inv → t.sender.discovery.scanning = false →
      t.sender.discovery.scanQueue = [] ∧ t.sender.scans = ∅ := by
    intro t ht hidle
    obtain ⟨hqueue, hflight⟩ := ht.idle hidle
    exact ⟨hqueue, Finset.card_eq_zero.1 (ht.card.trans hflight)⟩
  refine ⟨⟨hinv.card, hinv.window, ⟨hinv.distinct, hinv.prefix_targets⟩, fun hidle hc => ?_,
    hinv.counted, hinv.counted_le, fun hs => ?_, hinv.progress, hinv.begun, fun hs hnone => ?_⟩,
    fun e => ⟨fun hf => hempty (hinv.step e) (hinv.finishes hf), fun hbegins => ?_⟩⟩
  · have horder := hinv.order
    simp only [hc, Bool.false_eq_true, if_false, (hinv.idle hidle).1, List.append_nil] at horder
    exact horder
  · rw [hinv.card]
    exact hinv.done hs
  · have hcard := hinv.card
    rw [hnone, Finset.card_empty] at hcard
    exact Nat.ne_of_lt (hinv.running hs) hcard
  · refine (hempty hinv ?_).2
    cases e <;> simp_all [begins]

end

section

local instance sweepingQt : Qt := Ascii.qt [] []

/-- The /24 around `10.0.0.2` is swept, and the first reply fails. -/
theorem neighbours_accounted : ∃ s : Sweep, s.Accounts ∧ s.sender.discovery.scanDone = 1 ∧
    s.sender.discovery.scanInFlight = 24 ∧ s.sender.discovery.scanTotal = 506 := by
  let first : Sweep := ⟨fresh .trusting fun _ => none, [], [], false, 0⟩
  let events : List SenderEvent := [.scanSubnet [str "10.0.0.2"], .fails 0 []]
  have hstart : system.start first := ⟨fresh_start _ _, rfl, rfl, rfl, rfl⟩
  exact ⟨_, (sweep_accounts (Lib.ReachedBy.run_any events (.start hstart))).1, by decide +kernel⟩

end

end Sweep

end LocalSend
