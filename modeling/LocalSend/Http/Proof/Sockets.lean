import LocalSend.Http.Sockets

/-!
# The count of the sockets

`SocketPool.Inv`: the count is the number of sockets that are not destroyed, and each of those is
open, about to be deleted, or was cut by the handshake timer. Nothing deletes a socket of the last
kind.
-/

set_option autoImplicit false

namespace LocalSend

namespace Socket

/-- A socket that is there is open, about to be deleted, or was cut. -/
structure Sound (s : Socket) : Prop where
  there : (!s.destroyed).toNat =
    s.connected.toNat + (s.deleting && !s.destroyed).toNat + s.cut.toNat
  adopted : s.adopted = (!s.secure || s.isEncrypted)

variable {s : Socket}

/-- An open socket is nothing else. -/
theorem Sound.of_connected (h : s.Sound) (hc : s.connected = true) :
    s.destroyed = false ∧ s.deleting = false ∧ s.cut = false := by
  have ht := h.there
  rw [hc] at ht
  cases hd : s.destroyed <;> cases hl : s.deleting <;> cases hu : s.cut <;> simp [hd, hl, hu] at ht ⊢

theorem accepted_sound (secure : Bool) :
    (if secure then accepted secure else (accepted secure).adopt).Sound := by
  cases secure with
  | true => exact ⟨rfl, rfl⟩
  | false => exact ⟨rfl, rfl⟩

theorem Sound.onEncrypted (h : s.Sound) : s.onEncrypted.Sound := by
  unfold Socket.onEncrypted
  split
  · refine ⟨h.there, ?_⟩
    simp [adopt]
  · exact h

/-- An open socket that closes and will be deleted. -/
theorem Sound.closing (h : s.Sound) (hc : s.connected = true) :
    ({ s with connected := false, deleting := true } : Socket).Sound := by
  obtain ⟨hd, hl, hu⟩ := h.of_connected hc
  refine ⟨?_, h.adopted⟩
  simp [hd, hu]

/-- Every socket that fails will be deleted: a `QSslSocket` because of the error, any other because
it was adopted. -/
theorem Sound.fails (h : s.Sound) : s.fails.Sound := by
  unfold Socket.fails
  split
  · rename_i hc
    have he : ({ s with connected := false } : Socket).onError.onDisconnected =
        { s with connected := false, deleting := true } := by
      cases hs : s.secure with
      | true => cases s.adopted <;> simp [onError, onDisconnected, deleteLater]
      | false =>
        have ha : s.adopted = true := by simp [h.adopted, hs]
        simp [onError, onDisconnected, deleteLater, ha]
    rw [he]
    exact h.closing hc
  · exact h

/-- So will one that was adopted, whoever closes it. -/
theorem Sound.close (h : s.Sound) (ha : s.adopted = true) : s.close.Sound := by
  unfold Socket.close
  split
  · rename_i hc
    have he : ({ s with connected := false } : Socket).onDisconnected =
        { s with connected := false, deleting := true } := by
      simp [onDisconnected, deleteLater, ha]
    rw [he]
    exact h.closing hc
  · exact h

/-- One whose handshake is cut will not. -/
theorem Sound.onHandshakeTimeout (h : s.Sound) : s.onHandshakeTimeout.Sound := by
  unfold Socket.onHandshakeTimeout
  split
  · rename_i hs
    have ha : s.adopted = false := by
      rw [h.adopted]
      simpa using hs
    cases hc : s.connected with
    | true =>
      obtain ⟨hd, hl, hu⟩ := h.of_connected hc
      refine ⟨?_, ?_⟩
      · simp [Socket.close, onDisconnected, hc, ha, hd, hl]
      · simp only [Socket.close, onDisconnected, hc, if_true, ha, Bool.false_eq_true, if_false]
        rw [← ha]
        exact h.adopted
    | false =>
      refine ⟨?_, ?_⟩
      · simpa [Socket.close, hc] using h.there
      · simpa [Socket.close, hc] using h.adopted
  · exact h

theorem Sound.destroy (h : s.Sound) (hl : s.deleting = true) (hd : s.destroyed = false) :
    ({ s with destroyed := true } : Socket).Sound := by
  refine ⟨?_, h.adopted⟩
  have ht := h.there
  rw [hl, hd] at ht
  simp at ht ⊢
  omega

end Socket

namespace SocketPool

variable {w : SocketPool}

structure Inv (w : SocketPool) : Prop where
  count : w.liveConnections = w.sockets.countP fun s => !s.destroyed
  sound : ∀ s ∈ w.sockets, s.Sound

/-- The sockets that are there, kind by kind. -/
theorem countP_there {sockets : List Socket} (h : ∀ s ∈ sockets, s.Sound) :
    sockets.countP (fun s => !s.destroyed) = sockets.countP (·.connected) +
      sockets.countP (fun s => s.deleting && !s.destroyed) + sockets.countP (·.cut) := by
  induction sockets with
  | nil => rfl
  | cons s sockets ih =>
    have hs := (h s (by simp)).there
    have hrest := ih fun t ht => h t (by simp [ht])
    simp only [List.countP_cons, hrest]
    cases hd : s.destroyed <;> cases hc : s.connected <;> cases hl : s.deleting <;>
      cases hu : s.cut <;> simp [hd, hc, hl, hu] at hs ⊢ <;> omega

theorem countP_set_add {sockets : List Socket} {i : Nat} {s : Socket} (hs : sockets[i]? = some s)
    (p : Socket → Bool) (t : Socket) :
    (sockets.set i t).countP p + (p s).toNat = sockets.countP p + (p t).toNat := by
  obtain ⟨hi, rfl⟩ := List.getElem?_eq_some_iff.1 hs
  have hle : (p sockets[i]).toNat ≤ sockets.countP p := by
    cases hp : p sockets[i] with
    | false => simp
    | true => exact List.countP_pos_iff.2 ⟨_, List.getElem_mem hi, hp⟩
  rw [List.countP_set hi]
  cases hp : p sockets[i] <;> cases ht : p t <;>
    simp only [hp, Bool.toNat_true, Bool.toNat_false, Bool.false_eq_true, if_true, if_false]
      at hle ⊢ <;> omega

theorem Inv.set (h : w.Inv) {i live : Nat} {s t : Socket} (hs : w.sockets[i]? = some s)
    (ht : s.Sound → t.Sound)
    (hl : live + (!s.destroyed).toNat = w.liveConnections + (!t.destroyed).toNat) :
    ({ w with
      liveConnections := live
      sockets := w.sockets.set i t } : SocketPool).Inv := by
  have hmem : s ∈ w.sockets := List.mem_of_getElem? hs
  refine ⟨?_, fun u hu => ?_⟩
  · have hc := countP_set_add hs (fun s => !s.destroyed) t
    have hcount := h.count
    show live = (w.sockets.set i t).countP fun s => !s.destroyed
    omega
  · rcases List.mem_or_eq_of_mem_set hu with hu | rfl
    · exact h.sound u hu
    · exact ht (h.sound s hmem)

/-- What happens to one socket without destroying it. -/
theorem Inv.on (h : w.Inv) (i : Nat) {f : Socket → Socket} (hf : ∀ s : Socket, s.Sound → (f s).Sound)
    (hd : ∀ s, (f s).destroyed = s.destroyed) : (w.on i f).Inv := by
  unfold SocketPool.on
  cases hs : w.sockets[i]? with
  | none => exact h
  | some s =>
    simp only
    split
    · exact h
    · exact h.set hs (hf s) (by rw [hd])

theorem Inv.destroy (h : w.Inv) (i : Nat) : (w.destroy i).Inv := by
  unfold SocketPool.destroy
  cases hs : w.sockets[i]? with
  | none => exact h
  | some s =>
    simp only
    split
    · rename_i hdel
      simp only [Bool.and_eq_true, Bool.not_eq_true'] at hdel
      refine h.set hs (fun hsound => hsound.destroy hdel.1 hdel.2) ?_
      have hpos : 0 < w.liveConnections := by
        rw [h.count]
        exact List.countP_pos_iff.2 ⟨s, List.mem_of_getElem? hs, by simp [hdel.2]⟩
      simp only [hdel.2, Bool.not_false, Bool.not_true, Bool.toNat_true, Bool.toNat_false]
      omega
    · exact h

theorem Inv.incoming (h : w.Inv) (usable : Bool) : (w.incomingConnection usable).Inv := by
  unfold incomingConnection
  split
  · exact h
  · extract_lets socket
    have hsound := Socket.accepted_sound w.isSecure
    refine ⟨?_, fun s hs => ?_⟩
    · have hd : (if w.isSecure = true then socket else socket.adopt).destroyed = false := by
        split <;> rfl
      simp only [List.countP_append, List.countP_singleton, hd, h.count]
      rfl
    · rcases List.mem_append.1 hs with hs | hs
      · exact h.sound s hs
      · rw [List.mem_singleton] at hs
        rw [hs]
        exact hsound

theorem Inv.step (h : w.Inv) (e : SocketEvent) : (w.step e).Inv := by
  cases e with
  | incoming usable => exact h.incoming usable
  | encrypted i =>
    refine h.on i (fun _ hs => hs.onEncrypted) fun s => ?_
    unfold Socket.onEncrypted
    split <;> rfl
  | fails i =>
    refine h.on i (fun _ hs => hs.fails) fun s => ?_
    unfold Socket.fails Socket.onError Socket.onDisconnected
    split_ifs <;> rfl
  | closes i =>
    refine h.on i (fun s hs => ?_) fun s => ?_
    · split
      · rename_i ha
        exact hs.close ha
      · exact hs
    · unfold Socket.close Socket.onDisconnected
      split_ifs <;> rfl
  | handshakeTimeout i =>
    refine h.on i (fun _ hs => hs.onHandshakeTimeout) fun s => ?_
    unfold Socket.onHandshakeTimeout Socket.close Socket.onDisconnected
    split_ifs <;> rfl
  | deferredDelete i => exact h.destroy i
  | setIdentity secure => exact ⟨h.count, h.sound⟩

/-- The count is that of the open sockets, those about to be deleted, and those cut by the timer. -/
theorem live_eq (h : Lib.Reached system w) :
    w.liveConnections = w.opened + w.closing + w.cuts := by
  have hinv : w.Inv := by
    refine h.invariant (I := Inv) (fun v hv => ?_) fun _ e hi _ => hi.step e
    obtain ⟨hl, hs⟩ := hv
    refine ⟨?_, ?_⟩
    · rw [hl, hs]
      rfl
    · rw [hs]
      intro s hs
      cases hs
  rw [hinv.count, countP_there hinv.sound]
  rfl

/-- The count is right, and no connection is refused too early, exactly as long as no handshake was
cut by its timer. -/
theorem slots_conserved (h : Lib.Reached system w) :
    (w.liveConnections = w.opened + w.closing ∧
      (w.refuses = true → MaxConnections ≤ w.opened + w.closing)) ↔ w.cuts = 0 := by
  have hl := live_eq h
  refine ⟨fun ⟨he, _⟩ => by omega, fun hc => ⟨by omega, fun hr => ?_⟩⟩
  have hr : MaxConnections ≤ w.liveConnections := of_decide_eq_true hr
  omega

/-- A listener with TLS. -/
def listening : SocketPool := ⟨true, 0, []⟩

/-- Handshakes that end in every other way. -/
def handshakes : List SocketEvent := [
  .incoming true, .incoming true, .incoming true, .encrypted 0, .fails 1, .closes 0,
  .deferredDelete 1, .fails 2, .deferredDelete 0, .deferredDelete 2]

theorem slots_conserved_handshakes : ∃ w : SocketPool, w.sockets.length = 3 ∧
    w.liveConnections = w.opened + w.closing ∧
      (w.refuses = true → MaxConnections ≤ w.opened + w.closing) :=
  ⟨handshakes.foldl step listening, by decide,
    (slots_conserved (Lib.ReachedBy.run_any handshakes (.start ⟨rfl, rfl⟩))).2 (by decide)⟩

/-- Peers that open a socket and say nothing, until the timer cuts them. -/
def silent : List SocketEvent :=
  (List.range MaxConnections).flatMap fun i => [.incoming true, .handshakeTimeout i]

/-- They take the listener out of service: no socket is open, and every connection is refused. -/
theorem slots_lost : ∃ w, Lib.Reached system w ∧ w.opened = 0 ∧ w.closing = 0 ∧
    w.liveConnections = MaxConnections ∧ w.refuses = true :=
  ⟨silent.foldl step listening, Lib.ReachedBy.run_any silent (.start ⟨rfl, rfl⟩), by decide +kernel⟩

end SocketPool

end LocalSend
