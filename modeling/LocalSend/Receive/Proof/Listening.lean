import LocalSend.Receive.Proof.Authority

/-!
# The transport that is announced

What is announced is read off the settings whenever somebody asks; what is served was taken from
them when the socket was bound. They agree as long as the transport is not switched while the
server listens (`announced_is_served`): `setPort` binds the socket anew, `setSecureTransport` does
not.
-/

set_option autoImplicit false

namespace LocalSend

/-- A guard that lets everything happen but what comes from outside the service. -/
def Guard.inside : Guard := { Guard.all with outside := False }

namespace World

/-- What only the user and the system change. -/
def surroundings (w : World) : AppSettings × HttpServer × Env × ConnId :=
  (w.settings, w.server, w.env, w.nextConn)

/-- The transport is switched: `setSecureTransport` is called with a new value, and there is an
identity, or one is to be had when it is switched on. -/
def Switches [Qt] (w : World) (enabled : Bool) : Prop :=
  enabled ≠ w.settings.secureTransport ∧
    if enabled then (w.settings.identity.ensure w.env.issue).2.isValid = true
    else w.settings.identity.isValid = true

/-- The transport is not switched while the server listens. -/
def Unswitched [Qt] (w : World) (e : Event) : Prop :=
  ∀ enabled, e = .setSecureTransport enabled → w.server.isListening = true → ¬ w.Switches enabled

/-- The socket is the one the settings describe. -/
structure Announced (w : World) : Prop where
  port : 1024 ≤ w.settings.port ∧ w.settings.port ≤ 65535
  served : w.server.isListening = true → w.server.isSecure = w.settings.isEncrypted ∧
    w.server.boundPort = some w.settings.port

section
variable [Qt] {g : Guard} {w v : World}

/-- What an act does to the surroundings: nothing, or it comes from outside; and then it leaves the
connections alone, or lets one more in. Nobody changes the random source. -/
theorem Act.around (ha : Act g w v) : v.random = w.random ∧ (v.surroundings = w.surroundings ∨
    g.outside ∧ ((v.conns = w.conns ∧ v.nextConn = w.nextConn) ∨
      ∃ address certificate, v = w.connect address certificate)) := by
  cases ha with
  | outside h => exact ⟨rfl, .inr ⟨h, .inl ⟨rfl, rfl⟩⟩⟩
  | connect h => exact ⟨rfl, .inr ⟨h, .inr ⟨_, _, rfl⟩⟩⟩
  | wrote =>
    unfold World.write
    split <;> exact ⟨rfl, .inl rfl⟩
  | short =>
    unfold World.write
    split <;> exact ⟨rfl, .inl rfl⟩
  | @openSession i directory =>
    obtain ⟨id, d, t, tokens, heq, -⟩ := openSession_eq w i directory
    rw [heq]
    exact ⟨rfl, .inl rfl⟩
  | @enter i row path =>
    obtain ⟨d, hd⟩ := entered_eq w i row path { w.conns i with
      sink := some i
      maxBodyBytes := (w.transfer.entry row).size }
    rw [hd]
    exact ⟨rfl, .inl rfl⟩
  | @drop i u c error =>
    obtain ⟨d, hd⟩ := dropUpload_eq i u error w
    rw [hd]
    exact ⟨rfl, .inl rfl⟩
  | @settle i u =>
    obtain ⟨d, t, l, heq⟩ := settleUpload_eq i u { w with uploads := w.uploads.erase i }
    rw [heq]
    exact ⟨rfl, .inl rfl⟩
  | remember =>
    unfold rememberPeer
    split <;> exact ⟨rfl, .inl rfl⟩
  | record =>
    unfold writeHistory
    split <;> exact ⟨rfl, .inl rfl⟩
  | _ => exact ⟨rfl, .inl rfl⟩

/-- Nothing the service does reaches the settings or the listening socket. -/
theorem Acts.surroundings (ha : Acts g w v) (hg : ¬ g.outside) :
    v.surroundings = w.surroundings := by
  induction ha with
  | refl => rfl
  | tail _ ha ih => exact (ha.around.2.resolve_right fun h => hg h.1).trans ih

omit [Qt] in
theorem Announced.congr (h : w.Announced) (hs : v.settings.port = w.settings.port)
    (he : v.settings.isEncrypted = w.settings.isEncrypted) (hl : v.server = w.server) :
    v.Announced where
  port := by
    rw [hs]
    exact h.port
  served := by
    rw [hs, he, hl]
    exact h.served

/-! ## Binding the socket -/

theorem stopListening_spec (w : World) : w.stopListening.settings = w.settings ∧
    w.stopListening.server.isListening = false := by
  unfold stopListening
  split
  · rename_i hl
    exact ⟨rfl, by simpa using hl⟩
  · have h := Acts.surroundings (g := .inside) (finishSession_acts (str "cancelled") w) id
    exact ⟨congrArg Prod.fst h, rfl⟩

omit [Qt] in
/-- An identity that is used is a key pair. -/
theorem isSecure_setIdentity {c : Certificate} (h : c.isValid = true) (s : HttpServer) :
    (s.setIdentity c.certificate c.key).isSecure = true := by
  unfold Certificate.isValid at h
  simp only [Bool.and_eq_true, decide_eq_true_eq] at h
  unfold HttpServer.isSecure HttpServer.setIdentity
  simp [h.1.1, h.1.2]

omit [Qt] in
theorem startListening_announced (hp : 1024 ≤ w.settings.port ∧ w.settings.port ≤ 65535)
    (hl : w.server.isListening = false) : w.startListening.Announced := by
  have hport : w.settings.port % 65536 = w.settings.port := by omega
  unfold startListening
  rw [hl, if_neg (by decide)]
  extract_lets server port
  have hsecure : server.isSecure = w.settings.isEncrypted := by
    simp only [server]
    split
    · rename_i he
      rw [he]
      unfold AppSettings.isEncrypted at he
      exact isSecure_setIdentity (Bool.and_eq_true_iff.1 he).2 w.server
    · rename_i he
      rw [Bool.not_eq_true] at he
      rw [he]
      rfl
  unfold HttpServer.start
  cases w.env.binds port with
  | some reason => exact ⟨hp, fun h => nomatch h⟩
  | none => exact ⟨hp, fun _ => ⟨hsecure, congrArg some hport⟩⟩

theorem onSettingsChanged_announced (hp : 1024 ≤ w.settings.port ∧ w.settings.port ≤ 65535) :
    w.onSettingsChanged.Announced := by
  unfold onSettingsChanged
  split
  · rename_i hl
    exact ⟨hp, fun h => absurd h hl⟩
  · obtain ⟨hs, hl⟩ := stopListening_spec w
    refine startListening_announced ?_ hl
    rw [hs]
    exact hp

theorem Announced.setPort (h : w.Announced) (port : Int) : (w.setPort port).Announced := by
  unfold World.setPort AppSettings.setPort
  split
  · exact h
  · rename_i settings heq
    split at heq
    · cases heq
    · rename_i hrange
      obtain rfl : { w.settings with port := port } = settings := congrArg Prod.snd heq
      refine onSettingsChanged_announced (w := { w with
        settings := { w.settings with port := port } }) ?_
      change 1024 ≤ port ∧ port ≤ 65535
      omega

omit [Qt] in
theorem Announced.startListening (h : w.Announced) : w.startListening.Announced := by
  by_cases hl : w.server.isListening = true
  · unfold World.startListening
    rw [if_pos hl]
    exact h
  · exact startListening_announced h.port (by simpa using hl)

theorem Announced.stopListening (h : w.Announced) : w.stopListening.Announced := by
  obtain ⟨hs, hl⟩ := stopListening_spec w
  refine ⟨?_, fun h => ?_⟩
  · rw [hs]
    exact h.port
  · exact absurd (hl.symm.trans h) (by decide)

theorem Announced.setReceiveEnabled (h : w.Announced) (enabled : Bool) :
    (w.setReceiveEnabled enabled).Announced := by
  unfold World.setReceiveEnabled AppSettings.setReceiveEnabled
  split
  · exact h
  · rename_i settings heq
    split at heq
    · cases heq
    · obtain rfl : { w.settings with receiveEnabled := enabled } = settings :=
        congrArg Prod.snd heq
      have h₁ : ({ w with settings := { w.settings with receiveEnabled := enabled } } :
          World).Announced := h.congr rfl rfl rfl
      extract_lets w₁
      split
      · exact h₁.startListening.congr rfl rfl rfl
      · exact h₁.stopListening.congr rfl rfl rfl

/-! ## Switching the transport -/

theorem setSecureTransport_port (s : AppSettings) (enabled : Bool) (issue : Issue) :
    (s.setSecureTransport enabled issue).2.port = s.port := by
  unfold AppSettings.setSecureTransport AppSettings.ensureIdentity
  split
  · rfl
  · split
    · extract_lets
      split
      split <;> rfl
    · rfl

/-- Whether the transport is encrypted changes only when it is switched. -/
theorem isEncrypted_switch (w : World) (enabled : Bool) :
    (w.settings.setSecureTransport enabled w.env.issue).2.isEncrypted = w.settings.isEncrypted ↔
      ¬ w.Switches enabled := by
  unfold Switches AppSettings.setSecureTransport
  by_cases hsame : enabled = w.settings.secureTransport
  · simp [hsame]
  · rw [if_neg hsame]
    cases enabled with
    | false =>
      have hon : w.settings.secureTransport = true := by simpa using hsame
      simp [AppSettings.isEncrypted, hon]
    | true =>
      have hoff : w.settings.isEncrypted = false := by
        unfold AppSettings.isEncrypted
        rw [show w.settings.secureTransport = false by simpa using hsame, Bool.false_and]
      have hvalid : (AppSettings.ensureIdentity { w.settings with secureTransport := true }
          w.env.issue).isEncrypted = (w.settings.identity.ensure w.env.issue).2.isValid := by
        unfold AppSettings.ensureIdentity AppSettings.isEncrypted
        extract_lets
        split
        rename_i ok identity heq
        simp only at heq
        rw [heq]
        split <;> rfl
      rw [hoff]
      change (AppSettings.ensureIdentity { w.settings with secureTransport := true }
        w.env.issue).isEncrypted = false ↔ _
      rw [hvalid]
      simp [hsame]

theorem setPin_transport (s : AppSettings) (pin : QString) (salt : QByteArray) :
    (s.setPin pin salt).port = s.port ∧ (s.setPin pin salt).isEncrypted = s.isEncrypted := by
  unfold AppSettings.setPin
  extract_lets hash
  split
  · exact ⟨rfl, rfl⟩
  · split
    · exact ⟨rfl, rfl⟩
    · split <;> exact ⟨rfl, rfl⟩

omit [Qt] in
theorem setDestination_transport (s : AppSettings) (path : QString) :
    (s.setDestination path).port = s.port ∧
      (s.setDestination path).isEncrypted = s.isEncrypted := by
  unfold AppSettings.setDestination
  split <;> exact ⟨rfl, rfl⟩

theorem Announced.step (h : w.Announced) (hi : w.Inv) {e : Event} (he : w.Unswitched e) :
    (w.step e).Announced := by
  have quiet : e.outside = false → (w.step e).Announced := by
    intro ho
    have hs := (step_acts (g := .inside) hi e { permits_all w e with
      outside := fun h => absurd (ho.symm.trans h) (by decide)
      serves := fun i data he hc hr => { (permits_all w e).serves i data he hc hr with } }).surroundings
        id
    have hsettings : (w.step e).settings = w.settings := congrArg Prod.fst hs
    exact h.congr (by rw [hsettings]) (by rw [hsettings]) (congrArg (fun s => s.2.1) hs)
  cases e with
  | startListening => exact h.startListening
  | stopListening => exact h.stopListening
  | setPort port => exact h.setPort port
  | setReceiveEnabled enabled => exact h.setReceiveEnabled enabled
  | setSecureTransport enabled =>
    refine ⟨?_, fun hl => ?_⟩
    · rw [World.step, setSecureTransport_port]
      exact h.port
    · have hsame := (isEncrypted_switch w enabled).2 (he enabled rfl hl)
      rw [World.step, hsame, setSecureTransport_port]
      exact h.served hl
  | connect address certificate =>
    rw [World.step]
    split
    · exact h.congr rfl rfl rfl
    · exact h
  | setQuickSave => exact h.congr rfl rfl rfl
  | setFolderPerSender => exact h.congr rfl rfl rfl
  | setHistoryEnabled => exact h.congr rfl rfl rfl
  | setPinEnabled => exact h.congr rfl rfl rfl
  | setPin pin =>
    obtain ⟨hp, hs⟩ := setPin_transport w.settings pin
      (Crypto.randomBytes w.random w.drawn PinSaltBytes)
    exact h.congr hp hs rfl
  | setDestination path =>
    obtain ⟨hp, hs⟩ := setDestination_transport w.settings path
    exact h.congr hp hs rfl
  | setBlocked => exact h.congr rfl rfl rfl
  | forget => exact h.congr rfl rfl rfl
  | forgetAll => exact h.congr rfl rfl rfl
  | system => exact h.congr rfl rfl rfl
  | tick => exact h.congr rfl rfl rfl
  | _ => exact quiet rfl

omit [Qt] in
theorem protocol_https (s : AppSettings) : s.self.protocol = str "https" ↔ s.isEncrypted = true := by
  have hne : str "http" ≠ str "https" := by decide
  unfold AppSettings.self
  cases s.isEncrypted with
  | false => exact ⟨fun h => absurd h hne, nofun⟩
  | true => exact ⟨fun _ => rfl, fun _ => rfl⟩

theorem reached_announced (h : Lib.ReachedBy system Unswitched w) : w.Announced := by
  have hkeep : w.Inv ∧ w.Announced := by
    refine h.invariant (I := fun w => w.Inv ∧ w.Announced) (fun w hs => ⟨Start.inv hs, ?_⟩)
      fun w e hw he => ⟨(step_acts hw.1 e (permits_all w e)).inv hw.1, hw.2.step hw.1 he⟩
    refine ⟨hs.port, fun hl => ?_⟩
    rw [hs.server] at hl
    cases hl
  exact hkeep.2

/-- A switch while the server listens is all it takes. -/
theorem switched_disagrees (h : Lib.ReachedBy system Unswitched w)
    (hl : w.server.isListening = true) {enabled : Bool} (hs : w.Switches enabled) :
    ¬ ((w.step (.setSecureTransport enabled)).settings.self.protocol = str "https" ↔
      (w.step (.setSecureTransport enabled)).server.isSecure = true) := by
  have hsecure := ((reached_announced h).served hl).1
  have hswitch := mt (isEncrypted_switch w enabled).1 (not_not.2 hs)
  rw [protocol_https]
  intro hagree
  refine hswitch (Bool.eq_iff_iff.2 (hagree.trans ?_))
  rw [← hsecure]
  rfl

/-- In a run in which the transport is not switched while the server listens, what is announced is
what is served. -/
theorem announced_is_served (h : Lib.ReachedBy system Unswitched w)
    (hl : w.server.isListening = true) :
    (w.settings.self.protocol = str "https" ↔ w.server.isSecure = true) ∧
      w.server.boundPort = some w.settings.self.port := by
  obtain ⟨hsecure, hport⟩ := (reached_announced h).served hl
  rw [protocol_https, hsecure]
  exact ⟨.rfl, hport⟩

end

/-! ## Switched while it listens -/

section

local instance switchedQt : Qt := Ascii.qt [] [([1], [0xab])]

/-- Encryption is switched on before the server listens, and asked for once more after that. -/
def encryptedEvents : List Event := [
  .setSecureTransport true,
  .startListening,
  .setSecureTransport true,
  .setPort 1024]

theorem encrypted_announced : ∃ w : World, w.server.isListening = true ∧
    w.server.isSecure = true ∧ w.settings.self.protocol = str "https" ∧
      w.server.boundPort = some w.settings.self.port := by
  have hok : Lib.Allowed system Unswitched helloStart encryptedEvents := by
    refine ⟨?_, nofun, ?_, nofun, trivial⟩
    · rintro enabled ⟨⟩ hl
      exact absurd hl (by decide +kernel)
    · rintro enabled ⟨⟩ _ hs
      exact hs.1 (by decide +kernel)
  have hl : (encryptedEvents.foldl step helloStart).server.isListening = true := by decide +kernel
  have hsecure : (encryptedEvents.foldl step helloStart).server.isSecure = true := by decide +kernel
  obtain ⟨hprotocol, hport⟩ :=
    announced_is_served (Lib.ReachedBy.run _ (.start helloStart_start) hok) hl
  exact ⟨_, hl, hsecure, hprotocol.2 hsecure, hport⟩

/-- Encryption is switched on while the server listens in the clear: `https` is announced, and the
socket goes on without an identity. -/
theorem switched_while_listening : ∃ w : World, Lib.Reached system w ∧
    w.server.isListening = true ∧
    ¬ ((w.settings.self.protocol = str "https" ↔ w.server.isSecure = true) ∧
      w.server.boundPort = some w.settings.self.port) :=
  ⟨[Event.startListening, .setSecureTransport true].foldl step helloStart,
    Lib.ReachedBy.run_any _ (.start helloStart_start), by decide +kernel⟩

end

end World

end LocalSend
