import LocalSend.Http.Proof.Rule
import LocalSend.Receive.Proof.Frame
import LocalSend.Receive.Run

/-!
# What the service can do

Every event of a run is a chain of the acts below (`step_acts`), whatever it interleaves: `Act` says
once, guards included, what one of them can do to the world, and every invariant is shown for the
acts. What a chain may do is up to its `Guard`: whose bytes are read in it, whether the surroundings
of the service change, and what the run promises of the uploads that end and of the prepare-uploads
that become the transfer.
-/

set_option autoImplicit false

namespace LocalSend

def HttpConnection.fileId (c : HttpConnection) : QString := c.queryValue (str "fileId")

/-- What a chain of acts may do. -/
structure Guard where
  finish : World → ConnId → Prop
  park : HttpConnection → Prop
  reads : ConnId → Prop
  /-- A parked request may be let go without an answer. -/
  forget : Prop
  /-- The settings, the listening socket and the clock may change. -/
  outside : Prop
  /-- The system may answer differently from now on. -/
  system : Prop
  /-- What other programs may do to the files. -/
  files : World → Disk → Prop

namespace Guard

def all : Guard :=
  ⟨fun _ _ => True, fun _ => True, fun _ => True, True, True, True, fun _ _ => True⟩

/-- The connection `i` reads, and no more. -/
def reading (i : ConnId) : Guard :=
  ⟨fun _ _ => False, fun _ => False, (· = i), False, False, False, fun _ _ => False⟩

/-- Nobody reads, and nothing comes from outside. -/
def quiet : Guard :=
  ⟨fun _ _ => False, fun _ => False, fun _ => False, False, False, False, fun _ _ => False⟩

structure Le (g g' : Guard) : Prop where
  finish : ∀ w i, g.finish w i → g'.finish w i
  park : ∀ c, g.park c → g'.park c
  reads : ∀ i, g.reads i → g'.reads i
  forget : g.forget → g'.forget
  outside : g.outside → g'.outside
  system : g.system → g'.system
  files : ∀ w disk, g.files w disk → g'.files w disk

theorem reading_le {g : Guard} {i : ConnId} (h : g.reads i) : (reading i).Le g where
  finish _ _ := False.elim
  park _ := False.elim
  reads _ hj := hj ▸ h
  forget := False.elim
  outside := False.elim
  system := False.elim
  files _ _ := False.elim

end Guard

namespace World

variable [Qt]

/-- Somebody is waiting for an answer, or sending. -/
def Busy (w : World) : Prop := w.pending ≠ none ∨ w.sessionId ≠ []

/-- The prepare-upload of `i` passes every check, and becomes the transfer. -/
structure Takes (w : World) (i : ConnId) : Prop where
  path : (w.conns i).path = endpoint Protocol.PathPrepareUpload
  enabled : w.settings.receiveEnabled = true
  idle : ¬ w.Busy
  allowed : w.pinAttempts.allow w.now (w.conns i).peerAddress = true
  pin : w.settings.checkPin ((w.conns i).queryValue (str "pin")) = true
  info : ((w.conns i).jsonBody.value (str "info")).toObject ≠ []
  files : requestFiles (w.conns i) ≠ []
  count : (requestFiles (w.conns i)).count ≤ MaxFilesPerSession
  verified : fingerprintVerified (w.conns i) (requestPeer (w.conns i)).fingerprint = true
  unblocked : w.known.isBlocked (requestPeer (w.conns i)).fingerprint = false

/-- What a run has to promise when the service is handed the request of `i`. -/
structure Promises (g : Guard) (w : World) (i : ConnId) : Prop where
  park : w.Takes i → g.park (w.conns i)
  finish : ∀ u, w.uploads.lookup i = some u → w.Arrived u → g.finish w i
  forget : (w.conns i).path = endpoint Protocol.PathCancel → w.pending ≠ none → w.sessionId = [] →
    g.forget

/-- What an answer of success says: of an upload, that the row of its file id is done; of a
prepare-upload that is not declined, the session that was opened for it. And there was something that
was asked for. -/
structure Grants (w : World) (i : ConnId) (r : Response) : Prop where
  upload : (w.conns i).path = endpoint Protocol.PathUpload →
    (w.conns i).method ≠ str "OPTIONS" →
    w.sessionId ≠ [] ∧ (w.conns i).queryValue (str "sessionId") = w.sessionId ∧
      ∃ row, w.transfer.indexOfFile (w.conns i).fileId = some row ∧
        (w.transfer.entry row).status = .done
  prepare : (w.conns i).path = endpoint Protocol.PathPrepareUpload → r.status = 200 →
    r.payload = Qt.toJson w.acceptResponse ∧ Log.Issued w.log w.sessionId w.tokens i
  asked : (w.conns i).method = str "OPTIONS" ∨ (w.conns i).path ≠ []

/-- An upload that the headers of its request let in. -/
structure Admits (w : World) (i : ConnId) (row : Nat) : Prop where
  inBody : (w.conns i).InBody
  up : (w.conns i).closedEmitted = false
  new : w.uploads.lookup i = none
  path : (w.conns i).path = endpoint Protocol.PathUpload
  born : i < w.nextConn
  open_ : w.sessionId ≠ []
  session : (w.conns i).queryValue (str "sessionId") = w.sessionId
  token : (w.conns i).queryValue (str "token") ≠ [] ∧
    Crypto.equals ((w.tokens.lookup (w.conns i).fileId).getD [])
      ((w.conns i).queryValue (str "token"))
  address : (w.conns i).peerAddress = w.sessionAddress
  found : w.transfer.indexOfFile (w.conns i).fileId = some row
  notDone : (w.transfer.entry row).status ≠ .done

/-- The sink has room for `n` more bytes. -/
def Room (w : World) (i : ConnId) (n : Nat) : Prop :=
  (w.conns i).maxBodyBytes ≥ 0 → ((w.conns i).bodyReceived : Int) + n ≤ (w.conns i).maxBodyBytes

/-- A connection that has an upload does not close. -/
def Stays (w : World) (i : ConnId) (c : HttpConnection) : Prop :=
  w.uploads.lookup i ≠ none → c.closedEmitted = (w.conns i).closedEmitted

/-- One thing the service does. -/
inductive Act (g : Guard) (w : World) : World → Prop
  | outside {drawn : Nat} {env : Env} (hg : g.outside) (h : w.drawn ≤ drawn)
      (he : env = w.env ∨ g.system) (settings : AppSettings) (server : HttpServer)
      (known : KnownDevices) (devices : DeviceModel) (discovering : Bool) (listenError : QString)
      (now : Nat) :
      Act g w { w with
        settings := settings
        server := server
        known := known
        devices := devices
        discovering := discovering
        listenError := listenError
        env := env
        drawn := drawn
        now := now }
  | aside (devices : DeviceModel) (acceptTimer idleTimer : Bool) (pinAttempts : RateLimiter) :
      Act g w { w with
        devices := devices
        acceptTimer := acceptTimer
        idleTimer := idleTimer
        pinAttempts := pinAttempts }
  | files {disk : Disk} : g.files w disk → Act g w { w with disk := disk }
  | probe {disk : Disk} : w.pending ≠ none → w.prepareDirectory.2 = { w with disk := disk } →
      Act g w { w with disk := disk }
  | conns {f : ConnId → HttpConnection} : (∀ i, (w.conns i).Idle (f i)) →
      (∀ i, w.Stays i (f i)) → Act g w { w with conns := f }
  | read {i : ConnId} {c : HttpConnection} : g.reads i → (w.conns i).Step c → w.Stays i c →
      Act g w (w.setConn i c)
  | complete {i : ConnId} : g.reads i → (w.conns i).InBody →
      Act g w (w.setConn i (w.conns i).completed)
  | reply {i : ConnId} {r : Response} {c : HttpConnection} :
      (w.conns i).state ≠ .readingHeaders → w.Grants i r →
      HttpConnection.Idle { w.conns i with sent := (w.conns i).sent ++ [.response r] } c →
      w.Stays i c → Act g w (w.setConn i c)
  | connect (hg : g.outside) (address : QString) (certificate : Option QByteArray) :
      Act g w (w.connect address certificate)
  | transfer {t : TransferModel} : w.transfer.Alike t → Act g w { w with transfer := t }
  | wrote {i : ConnId} {f : FileId} {data : QByteArray} : g.reads i →
      (w.conns i).InBody → (w.conns i).sink = some f → w.Room i data.length →
      (w.write i f data).1 = data.length →
      Act g w ((w.write i f data).2.setConn i { w.conns i with
        bodyReceived := (w.conns i).bodyReceived + data.length })
  | short {i : ConnId} {f : FileId} {data : QByteArray} {c : HttpConnection} : g.reads i →
      (w.conns i).InBody → (w.conns i).sink = some f → w.Room i data.length →
      (w.conns i).Idle c → c.state = .responded → w.Stays i c →
      Act g w ((w.write i f data).2.setConn i c)
  | park {i : ConnId} : ¬ w.Busy → i < w.nextConn → (w.conns i).state = .readingBody →
      (w.conns i).bodyComplete = true →
      (w.conns i).path = endpoint Protocol.PathPrepareUpload →
      fingerprintVerified (w.conns i) (requestPeer (w.conns i)).fingerprint = true →
      g.park (w.conns i) → Act g w (w.park i)
  | prompt : w.pending ≠ none → Act g w w.raisePrompt
  | openSession {i : ConnId} {directory : QString} : w.pending = some i →
      (w.conns i).state = .responded →
      Act g w ((w.openSession i directory).emit .started).releasePending
  | release : (∀ i, w.pending = some i → (w.conns i).state = .responded ∨ g.forget) →
      Act g w w.releasePending
  | enter {i : ConnId} {row : Nat} {path : QString} : g.reads i → w.Admits i row →
      w.isFree path = true → (w.openFile (path ++ PartSuffix)).1 = true →
      w.sessionDirectory ++ str "/" <+: path →
      Act g w (((w.openFile (path ++ PartSuffix)).2.beginUpload i row path).setConn i { w.conns i with
        sink := some i
        maxBodyBytes := (w.transfer.entry row).size })
  | mark {row : Nat} {status : FileStatus} {error : QString} :
      (w.transfer.entry row).status ≠ .done → status ≠ .done →
      Act g w (w.setFileStatus row status error)
  | drop {i : ConnId} {u : Upload} {c : HttpConnection} (error : QString) :
      w.uploads.lookup i = some u → (w.conns i).Idle c → c.state = .responded →
      Act g w ((w.dropUpload i u error).setConn i c)
  | settle {i : ConnId} {u : Upload} : w.uploads.lookup i = some u →
      (w.conns i).state = .readingBody → (w.conns i).bodyComplete = true →
      (w.Arrived u → g.finish w i) →
      Act g w (settleUpload i u { w with uploads := w.uploads.erase i }).2
  | remember : w.sessionId ≠ [] → Act g w w.rememberPeer
  | record : w.sessionId ≠ [] → Act g w w.writeHistory
  | finish (destination : QString) : w.sessionId ≠ [] → w.uploads = ∅ →
      Act g w (w.closeSession.emit
        (.transferFinished w.transfer.stateName w.transfer.completedCount destination))
  | posted (url sessionId : QString) : Act g w (w.emit (.posted url sessionId))

theorem Act.mono {g g' : Guard} (hg : g.Le g') {w v : World} (h : Act g w v) : Act g' w v := by
  cases h with
  | outside h1 h2 h3 => exact .outside (hg.outside h1) h2 (h3.imp_right hg.system) ..
  | aside => exact .aside ..
  | files h => exact .files (hg.files _ _ h)
  | probe h1 h2 => exact .probe h1 h2
  | conns h1 h2 => exact .conns h1 h2
  | read h1 h2 h3 => exact .read (hg.reads _ h1) h2 h3
  | complete h1 h2 => exact .complete (hg.reads _ h1) h2
  | reply h1 h2 h3 h4 => exact .reply h1 h2 h3 h4
  | connect h => exact .connect (hg.outside h) _ _
  | transfer h => exact .transfer h
  | wrote h1 h2 h3 h4 h5 => exact .wrote (hg.reads _ h1) h2 h3 h4 h5
  | short h1 h2 h3 h4 h5 h6 h7 => exact .short (hg.reads _ h1) h2 h3 h4 h5 h6 h7
  | park h1 h2 h3 h4 h5 h6 h7 => exact .park h1 h2 h3 h4 h5 h6 (hg.park _ h7)
  | prompt h => exact .prompt h
  | openSession h1 h2 => exact .openSession h1 h2
  | release h => exact .release fun i hi => (h i hi).imp_right hg.forget
  | enter h1 h2 h3 h4 h5 => exact .enter (hg.reads _ h1) h2 h3 h4 h5
  | mark h1 h2 => exact .mark h1 h2
  | drop _ h1 h2 h3 => exact .drop _ h1 h2 h3
  | settle h1 h2 h3 h4 => exact .settle h1 h2 h3 fun ha => hg.finish _ _ (h4 ha)
  | remember h => exact .remember h
  | record h => exact .record h
  | finish _ h1 h2 => exact .finish _ h1 h2
  | posted => exact .posted _ _

/-- A chain of acts. -/
abbrev Acts (g : Guard) : World → World → Prop := Relation.ReflTransGen (Act g)

theorem Acts.mono {g g' : Guard} (hg : g.Le g') {w v : World} (h : Acts g w v) : Acts g' w v :=
  Relation.ReflTransGen.mono (fun _ _ ha => Act.mono hg ha) _ _ h

/-- What holds of a world and is kept by every act holds after a chain of acts. -/
theorem Acts.keep {g : Guard} {P : World → Prop} (hP : ∀ {w v}, Act g w v → P w → P v)
    {w v : World} (h : Acts g w v) (hw : P w) : P v := by
  induction h with
  | refl => exact hw
  | tail _ ha ih => exact hP ha ih

end World

end LocalSend
