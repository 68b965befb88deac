import LocalSend.Receive.Proof.Underway

/-!
# What is kept while a request is read

A condition on the world that outlives a change to a connection, the slots of `closed()`, a write, the
headers of an upload and its progress (`Listens`) outlives whatever a connection reads
(`Listens.heard`); the request that is read is left to the handlers.
-/

set_option autoImplicit false

namespace LocalSend.World

variable [Qt] {i : ConnId} {P : World → Prop} {w v : World}

/-- Kept by all that hears of the connection `i` before its request is in. -/
structure Listens (i : ConnId) (P : World → Prop) : Prop extends (port i).Preserves P where
  write : ∀ f data {w}, P w → P (w.write i f data).2
  headers : ∀ {w}, P w → P (w.handleUploadHeaders i)
  progress : ∀ {w}, P w → P (w.onBodyProgress i)

theorem Listens.onHeadersReady (h : Listens i P) (hw : P w) : P (w.onHeadersReady i) := by
  unfold World.onHeadersReady
  split
  · exact h.headers hw
  · exact hw

theorem Listens.rule (h : Listens i P) (hinv : w.Inv) (hl : w.live i = true) :
    (host i).Rule (fun data v => Reading i w data v ∧ P v) fun v => Stopped i w v ∧ P v :=
  have base := host_rule hinv hl
  { get_bodyProgress := base.get_bodyProgress
    get_write := base.get_write
    stop := fun hI hr => ⟨base.stop hI.1 hr, hI.2⟩
    turn := fun hI hb ht => ⟨base.turn hI.1 hb ht, h.set _ hI.2⟩
    take := fun n hI hb => ⟨base.take n hI.1 hb, h.set _ hI.2⟩
    respond := fun status payload contentType hI hb hs =>
      ⟨base.respond status payload contentType hI.1 hb hs, h.toPreserves.respond _ _ _ hI.2⟩
    keep := fun hI hb hsink hroom =>
      ⟨base.keep hI.1 hb hsink hroom, h.progress (h.set _ hI.2)⟩
    write := fun hI hb hsink hroom hw =>
      ⟨base.write hI.1 hb hsink hroom hw, h.progress (h.set _ (h.write _ _ hI.2))⟩
    short := fun hI hb hsink hroom hw =>
      ⟨base.short hI.1 hb hsink hroom hw, h.toPreserves.respond _ _ _ (h.write _ _ hI.2)⟩
    longHead := fun hI hst hnone hlong =>
      ⟨base.longHead hI.1 hst hnone hlong, h.toPreserves.respond _ _ _ hI.2⟩
    badHead := fun hI hread =>
      ⟨base.badHead hI.1 hread, h.toPreserves.respond _ _ _ (h.set _ hI.2)⟩
    headers := fun hI hread hm =>
      have hkept := h.onHeadersReady (h.set _ hI.2)
      have hheads := base.headers hI.1 hread hm
      ⟨fun hst => ⟨hheads.1 hst, hkept⟩, fun hst => ⟨⟨(hheads.2 hst).1, hkept⟩, (hheads.2 hst).2⟩⟩
    preflight := fun hI hread hm =>
      ⟨base.preflight hI.1 hread hm, h.toPreserves.respond _ _ _ (h.set _ hI.2)⟩ }

/-- Kept up to where the service is handed the request, should it be in. -/
theorem Listens.heard (h : Listens i P) (hinv : w.Inv) (hl : w.live i = true) (hw : P w)
    (data : QByteArray) : P (w.heard i data) := by
  unfold World.heard
  by_cases hlate : (w.conns i).state = .responded ∨ (w.conns i).bodyComplete = true
  · rw [Host.onReadyRead_late (host i).mute data hlate]
    exact h.set _ hw
  obtain ⟨hst, hc⟩ := not_or.1 hlate
  rw [Bool.not_eq_true] at hc
  rcases (h.rule hinv hl).onReadyRead data hst hc ⟨.feed hc data, h.set _ hw⟩ with
    ⟨heq, hQ⟩ | ⟨s, hs, -, -, hr, -⟩
  · rw [← heq]
    exact hQ.2
  · rw [hr]
    exact h.set _ hs.2

end LocalSend.World
