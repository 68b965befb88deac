import LocalSend.Receive.World

/-!
# The receive service

`ReceiveService`, slot by slot. The two slots of `closed()` check by themselves whether they concern
the connection, so a connection's port calls both; the port of a parked connection, and of one whose
upload has just been closed, has only `onPendingClosed` on it (`parkedPort`).
-/

set_option autoImplicit false

namespace LocalSend

def PartSuffix : QString := str ".part"
def MaxFilesPerSession : Nat := 2000

def looksLikeSha256 (digest : QString) : Bool :=
  digest.length = 64 && digest.all fun c => QByteArray.isDigit 16 (QString.toLatin1 c)

def endpoint (path : QString) : QString := Protocol.ApiPrefix ++ path

/-- `%1 of %2 files were ..`. -/
def countText (done total : Nat) (verb : String) : QString :=
  QString.number done ++ str " of " ++ QString.number total ++ str " files were " ++ str verb

/-! ## Destination handling -/

def sanitizeFileName (name : QString) : QString :=
  let clean := QFileInfo.fileName (Protocol.sanitizeText name 200)
  let clean := clean.map fun c => if c = 92 ∨ c = 47 then 95 else c
  let clean := if clean = [] ∨ clean = str "." ∨ clean = str ".." then str "received-file" else clean
  if clean.length > 200 then
    let suffix := QFileInfo.suffix clean
    let room : Int := if suffix = [] then 200 else 200 - (suffix.length : Int) - 1
    let clean := if room < 0 then clean else clean.take room.toNat
    if suffix = [] then clean else clean ++ str "." ++ suffix
  else clean

namespace World

/-- Nothing occupies the name, nor the name it is written under. -/
def isFree (w : World) (candidate : QString) : Bool :=
  !w.fileExists candidate && !w.fileExists (candidate ++ PartSuffix)

/-- Empty when nothing is free after a thousand tries. -/
def reserveFilePath (w : World) (directory fileName : QString) : QString :=
  let clean := sanitizeFileName fileName
  let candidate := directory ++ str "/" ++ clean
  if w.isFree candidate then candidate
  else
    -- a name that is nothing but an extension is all stem
    let bare := QFileInfo.completeBaseName clean = []
    let base := if bare then clean else QFileInfo.completeBaseName clean
    let suffix := if bare then [] else QFileInfo.suffix clean
    let numbered (n : Nat) : QString :=
      directory ++ str "/" ++ base ++ str " (" ++ QString.number n ++ str ")"
        ++ (if suffix = [] then [] else str "." ++ suffix)
    (((List.range 998).map fun k => numbered (k + 2)).find? w.isFree).getD []

/-- The folder to write to, empty when nothing can be created in it. -/
def prepareDirectory (w : World) : QString × World :=
  let path := w.settings.destination ++
    (if w.settings.folderPerSender ∧ w.peer.aliasName ≠ [] then
      str "/" ++ sanitizeFileName w.peer.aliasName else [])
  match w.mkpath path with
  | (false, w) => ([], w)
  | (true, w) =>
    let probe := path ++ str "/.localsend-write-test"
    match w.openFile probe with
    | (false, w) => ([], w)
    | (true, w) => (path, w.removeFile probe)

/-! ## Sessions and what ends them -/

def onPendingClosed (i : ConnId) (w : World) : World :=
  if w.pending ≠ some i then w
  else
    let w := { w with pending := none, acceptTimer := false }
    if w.sessionId = [] then w.setState .idle [] else w

def parkedPort (i : ConnId) : Port World where
  get w := w.conns i
  set := setConn i
  closed := onPendingClosed i
  get_set c w := by simp [setConn]
  set_get w := by simp [setConn]
  set_set c d w := by simp [setConn]

def releasePending (w : World) : World := { w with pending := none }

def closeUpload (i : ConnId) (keepFile : Bool) (w : World) : World :=
  match w.uploads.lookup i with
  | none => w
  | some u =>
    let w := closeFile u.file { w with uploads := w.uploads.erase i }
    if keepFile then w else w.removeFile u.partPath

/-- One pass of the loop that cuts off what is still streaming. -/
def cutOff (w : World) (i : ConnId) : World :=
  let row := (w.uploads.lookup i).map (·.row)
  let w := w.closeUpload i false
  let w := match row with
    | some row => w.setFileStatus row .failed (str "Transfer stopped")
    | none => w
  (parkedPort i).respond 500 [] jsonType w

/-- Files the sender never got round to. -/
def skipRow (w : World) (row : Nat) : World :=
  if (w.transfer.entry row).status = .waiting ∨ (w.transfer.entry row).status = .transferring then
    w.setFileStatus row .skipped []
  else w

def setOutcome (status : QString) (w : World) : World :=
  let done := w.transfer.completedCount
  let total := w.transfer.fileCount
  if status = str "cancelled" then w.setState .cancelled []
  else if done = total then w.setState .finished []
  else if done > 0 then w.setState .failed (countText done total "received")
  else w.setState .failed (str "Nothing was received")

/-- The rows that are done, as a history record has them. -/
def sessionRecord (w : World) : HistoryModel.Record :=
  let received := w.transfer.files.filter fun f => f.status = .done
  { id := w.sessionId
    direction := str "receive"
    peerAlias := w.peer.aliasName
    peerDeviceType := w.peer.deviceType
    timestamp := w.now
    fileNames := received.map (·.fileName)
    totalBytes := received.foldl (fun total f => wrap64 (total + f.size)) 0
    status := w.transfer.stateName
    destination := w.sessionDirectory }

def closeSession (w : World) : World := { w with
  sessionId := []
  sessionAddress := []
  sessionDirectory := []
  tokens := ∅
  log := w.log ++ [.ended] }

section
variable [Qt]

/-- The pairing is recorded once something arrived from this key. -/
def rememberPeer (w : World) : World :=
  if w.transfer.completedCount > 0 then { w with
    known := w.known.remember w.now w.peer.fingerprint w.peer.aliasName
    log := w.log ++ [.remembered w.peer.fingerprint w.peer.aliasName] }
  else w

def writeHistory (w : World) : World :=
  if w.settings.historyEnabled ∧ w.transfer.completedCount > 0 then { w with
    history := w.history.append w.sessionRecord
    log := w.log ++ [.recorded w.sessionRecord] }
  else w

/-- What is left of `finishSession` once nothing is streaming and nobody waits. -/
def settleSession (status : QString) (w : World) : World :=
  let w := (List.range w.transfer.fileCount).foldl skipRow w
  let w := w.setOutcome status
  let w := w.rememberPeer
  let w := w.writeHistory
  let destination := w.sessionDirectory
  w.closeSession.emit
    (.transferFinished w.transfer.stateName w.transfer.completedCount destination)

def finishSession (status : QString) (w : World) : World :=
  let hadSession := w.sessionId ≠ []
  if ¬ hadSession ∧ w.pending = none then w
  else
    let w := { w with idleTimer := false, acceptTimer := false }
    let w := w.uploads.keys.foldl cutOff w
    let w := match w.pending with
      | some i => ((parkedPort i).respond 403 [] jsonType w).releasePending
      | none => w
    if ¬ hadSession then w.setState .cancelled [] else w.settleSession status

def onUploadClosed (i : ConnId) (w : World) : World :=
  match w.uploads.lookup i with
  | none => w
  | some u =>
    let w := closeFile u.file { w with uploads := w.uploads.erase i }
    let w := w.removeFile u.partPath
    let w := w.setFileStatus u.row .failed (str "The sender disconnected")
    if w.transfer.settled then w.finishSession (str "failed") else w

/-- A connection with all slots of `closed()`. -/
def port (i : ConnId) : Port World :=
  { parkedPort i with closed := fun w => onUploadClosed i (onPendingClosed i w) }

def respond (i : ConnId) (status : Nat) (w : World) : World := (port i).respond status [] jsonType w

/-! ## The parked request -/

/-- A token for a row. -/
def issueToken (w : World) (row : Nat) : World :=
  let (token, w) := w.generateToken
  { w with
    transfer := w.transfer.setFileToken row token
    tokens := w.tokens.insert (w.transfer.entry row).id token }

def acceptResponse (w : World) : QJsonObject := [
  (str "files", .object (w.tokens.entries.map fun e => (e.1, .string e.2))),
  (str "sessionId", .string w.sessionId)]

/-- Opens the session: its id, its address, its folder and a token for each row. -/
def openSession (i : ConnId) (directory : QString) (w : World) : World :=
  let (sessionId, w) := w.generateToken
  let w := { w with
    sessionId := sessionId
    sessionAddress := (w.conns i).peerAddress
    sessionDirectory := directory
    tokens := ∅ }
  let w := (List.range w.transfer.fileCount).foldl issueToken w
  w.emit (.issued w.sessionId w.sessionAddress w.tokens)

def accept (w : World) : World :=
  match w.pending with
  | none => w
  | some i =>
    match w.prepareDirectory with
    | (directory, w) =>
      if directory = [] then
        let w := (parkedPort i).respond 500 [] jsonType w
        let w := { w.releasePending with acceptTimer := false }
        w.setState .failed (str "Cannot write to the destination folder")
      else
        let w := w.openSession i directory
        let w := (parkedPort i).respondJson 200 w.acceptResponse w
        let w := { w.releasePending with acceptTimer := false }
        let w := { w with transfer := w.transfer.setDestination w.sessionDirectory }
        let w := { w.setState .active [] with idleTimer := true }
        w.emit .started

/-- The parked request is answered 403 and let go. -/
def refusePending (i : ConnId) (w : World) : World :=
  ((parkedPort i).respond 403 [] jsonType w).releasePending

def decline (w : World) : World :=
  match w.pending with
  | none => w
  | some i => { w.refusePending i with acceptTimer := false }.setState .idle []

def onAcceptTimeout (w : World) : World :=
  match w.pending with
  | none => w
  | some i => (w.refusePending i).setState .idle []

/-! ## Requests -/

def registerPeer (payload : QJsonObject) (address : QString) (w : World) : DeviceInfo × World :=
  let peer := DeviceInfo.fromPayload payload
  if peer.isValid ∧ peer.fingerprint ≠ w.settings.fingerprint then
    (w.settings.self, { w with
      devices := (w.devices.upsert w.known w.now { peer with address := address }).2 })
  else (w.settings.self, w)

def handleInfo (i : ConnId) (w : World) : World :=
  (port i).respondJson 200 w.settings.self.toInfoResponse w

def handleRegister (i : ConnId) (w : World) : World :=
  let (self, w) := w.registerPeer (w.conns i).jsonBody (w.conns i).peerAddress
  (port i).respondJson 200 self.toInfoResponse w

/-- A row as a descriptor of the prepare-upload asks for it. -/
def parseEntry (files : QJsonObject) (id : QString) : FileEntry :=
  let descriptor := (files.value id).toObject
  let fileName := (descriptor.value (str "fileName")).toString []
  let size := qint64 (descriptor.value (str "size")).toDouble
  { id := (descriptor.value (str "id")).toString id
    fileName := if fileName = [] then str "file" else fileName
    size := if size < 0 then 0 else size
    fileType := Protocol.sanitizeText ((descriptor.value (str "fileType")).toString []) 128
    sha256 := Protocol.sanitizeText ((descriptor.value (str "sha256")).toString []) 128 }

def parseEntries (files : QJsonObject) : List FileEntry := files.keys.map (parseEntry files)

/-- The sender as its request and its connection describe it. -/
def requestPeer (c : HttpConnection) : DeviceInfo :=
  { DeviceInfo.fromPayload (c.jsonBody.value (str "info")).toObject with
    address := c.peerAddress }

def requestFiles (c : HttpConnection) : QJsonObject := (c.jsonBody.value (str "files")).toObject

/-- The claimed fingerprint is that of the certificate the client presented. Nothing to compare with
for a client that presented none. -/
def fingerprintVerified (c : HttpConnection) (fingerprint : QString) : Bool :=
  match c.peerCertificate with
  | none => true
  | some certificate => Crypto.equalsFold (Certificate.fingerprintOf certificate) fingerprint

/-- The request becomes the transfer, waiting for an answer. -/
def park (i : ConnId) (w : World) : World :=
  let c := w.conns i
  let peer := requestPeer c
  let entries := parseEntries (requestFiles c)
  let w := { w with
    peer := peer
    transfer := w.transfer.begin .receiving peer.aliasName peer.address peer.deviceType
      peer.fingerprint entries
    log := w.log ++ [Effect.begun i c peer entries] }
  { w.setState .pending [] with pending := some i }

def raisePrompt (w : World) : World :=
  { w with
    acceptTimer := true
    log := w.log ++ [.prompted w.peer.aliasName w.transfer.fileCount w.transfer.totalBytes] }

def handlePrepareUpload (i : ConnId) (w : World) : World :=
  let address := (w.conns i).peerAddress
  if ¬ w.settings.receiveEnabled then w.respond i 403
  else if w.pending ≠ none ∨ w.sessionId ≠ [] then w.respond i 409
  else if ¬ w.pinAttempts.allow w.now address then
    let w := w.setConn i ((w.conns i).addHeader (ascii "Retry-After")
      (QByteArray.number (w.pinAttempts.retryAfter w.now address)))
    w.respond i 429
  else if ¬ w.settings.checkPin ((w.conns i).queryValue (str "pin")) then
    { w with pinAttempts := w.pinAttempts.recordFailure w.now address }.respond i 401
  else
    let w := { w with pinAttempts := w.pinAttempts.recordSuccess address }
    let info := ((w.conns i).jsonBody.value (str "info")).toObject
    let files := requestFiles (w.conns i)
    let peer := requestPeer (w.conns i)
    if info = [] then w.respond i 400
    else if files = [] then w.respond i 204
    else if files.count > MaxFilesPerSession then w.respond i 400
    else if ¬ fingerprintVerified (w.conns i) peer.fingerprint then w.respond i 403
    else if w.known.isBlocked peer.fingerprint then w.respond i 403
    else
      let w := (w.registerPeer info address).2
      let w := w.park i
      if w.settings.quickSave then w.accept else w.raisePrompt

/-! ## Uploads -/

/-- The file is open for row `row`: the upload is entered before a byte of its body is read. -/
def beginUpload (i : ConnId) (row : Nat) (finalPath : QString) (w : World) : World :=
  let partPath := finalPath ++ PartSuffix
  let w := { w with
    handles := Function.update w.handles i (some ⟨partPath, []⟩)
    uploads := w.uploads.insert i ⟨row, i, partPath, finalPath⟩
    log := w.log ++ [Effect.opened i (w.conns i) row] }
  { w.setFileStatus row .transferring [] with idleTimer := true }

def handleUploadHeaders (i : ConnId) (w : World) : World :=
  let sessionId := (w.conns i).queryValue (str "sessionId")
  let fileId := (w.conns i).queryValue (str "fileId")
  let token := (w.conns i).queryValue (str "token")
  if sessionId = [] ∨ fileId = [] ∨ token = [] then w.respond i 400
  else if w.sessionId = [] ∨ sessionId ≠ w.sessionId then w.respond i 409
  else if ¬ Crypto.equals ((w.tokens.lookup fileId).getD []) token
      ∨ (w.conns i).peerAddress ≠ w.sessionAddress then w.respond i 403
  else match w.transfer.indexOfFile fileId with
  | none => w.respond i 400
  | some row =>
    if (w.transfer.entry row).status = .done then w.respond i 200
    else
      let finalPath := w.reserveFilePath w.sessionDirectory (w.transfer.entry row).fileName
      if finalPath = [] then
        (w.setFileStatus row .failed (str "No free name for this file")).respond i 500
      else match w.openFile (finalPath ++ PartSuffix) with
      | (false, w) => (w.setFileStatus row .failed (str "Cannot write the file")).respond i 500
      | (true, w) =>
        let w := w.beginUpload i row finalPath
        (port i).streamBodyTo i (w.transfer.entry row).size w

/-- The slot on `bodyProgress` that `handleUploadHeaders` connects. -/
def onBodyProgress (i : ConnId) (w : World) : World :=
  match w.uploads.lookup i with
  | none => w
  | some u => { w with
    transfer := w.transfer.setFileTransferred u.row (w.conns i).bodyReceived
    idleTimer := true }

/-- The row's file is complete and lies at `path`. -/
def fileDone (i : ConnId) (row : Nat) (path : QString) (w : World) : World :=
  let content := match w.disk path with
    | some (.file content) => content
    | _ => []
  let w := { w with
    transfer := w.transfer.setFileLocalPath row path
    log := w.log ++ [Effect.stored i row path content] }
  w.setFileStatus row .done []

/-- A digest the sender stated is compared once the file is complete. -/
def digestMatches (complete : Bool) (declared digest : QString) : Bool :=
  if complete && looksLikeSha256 declared then Crypto.equalsFold digest declared else true

/-- The body is in: what became of the upload, and the status it is answered with. -/
def settleUpload (i : ConnId) (u : Upload) (w : World) : Nat × World :=
  let digest := match w.handles u.file with
    | some h => QString.fromLatin1 (QByteArray.toHex (Qt.sha256 h.written))
    | none => []
  let w := w.closeFile u.file
  let complete : Bool := (w.fileSize u.partPath : Int) ≥ (w.transfer.entry u.row).size
  let declared := (w.transfer.entry u.row).sha256
  if ¬ complete then
    (500, (w.removeFile u.partPath).setFileStatus u.row .failed (str "Transfer was cut short"))
  else if ¬ digestMatches complete declared digest then
    (422, (w.removeFile u.partPath).setFileStatus u.row .failed (str "The file arrived damaged"))
  else match w.renameFile u.partPath u.finalPath with
  | (true, w) => (200, w.fileDone i u.row u.finalPath)
  | (false, w) => (200, w.fileDone i u.row u.partPath)

def handleUploadFinished (i : ConnId) (w : World) : World :=
  match w.uploads.lookup i with
  | none => if (w.conns i).hasResponded then w else w.respond i 400
  | some u =>
    let (status, w) := settleUpload i u { w with uploads := w.uploads.erase i }
    let w := w.respond i status
    let w := { w with idleTimer := true }
    if w.transfer.settled then
      w.finishSession (if w.transfer.failedCount > 0 then str "failed" else str "finished")
    else w

/-! ## Cancel -/

def handleCancel (i : ConnId) (w : World) : World :=
  let sessionId := (w.conns i).queryValue (str "sessionId")
  let w := w.respond i 200
  if w.pending ≠ none ∧ w.sessionId = [] then
    { w.releasePending with acceptTimer := false }.setState .cancelled []
  else if w.sessionId ≠ [] ∧ (sessionId = [] ∨ sessionId = w.sessionId) then
    w.finishSession (str "cancelled")
  else w

def notifyPeerCancelled (w : World) : World :=
  if w.peer.address = [] ∨ w.sessionId = [] then w
  else w.emit (.posted (w.peer.apiBase ++ Protocol.PathCancel) w.sessionId)

def cancel (w : World) : World :=
  if w.pending ≠ none ∧ w.sessionId = [] then w.decline
  else if w.sessionId = [] then w
  else w.notifyPeerCancelled.finishSession (str "cancelled")

def onSessionIdle (w : World) : World :=
  if w.sessionId = [] then w else w.finishSession (str "failed")

/-! ## Routing -/

def onHeadersReady (i : ConnId) (w : World) : World :=
  if (w.conns i).path = endpoint Protocol.PathUpload then w.handleUploadHeaders i else w

def onRequestReady (i : ConnId) (w : World) : World :=
  let path := (w.conns i).path
  if path = endpoint Protocol.PathInfo ∨ path = Protocol.PathLegacyInfo then w.handleInfo i
  else if path = endpoint Protocol.PathRegister then w.handleRegister i
  else if path = endpoint Protocol.PathPrepareUpload then w.handlePrepareUpload i
  else if path = endpoint Protocol.PathUpload then w.handleUploadFinished i
  else if path = endpoint Protocol.PathCancel then w.handleCancel i
  else w.respond i 404

def host (i : ConnId) : Host World :=
  { port i with
    headersReady := onHeadersReady i
    requestReady := onRequestReady i
    bodyProgress := onBodyProgress i
    write := write i }

/-! ## Listening -/

def startListening (w : World) : World :=
  if w.server.isListening then w
  else
    let server := if w.settings.isEncrypted then
      w.server.setIdentity w.settings.identity.certificate w.settings.identity.key
    else w.server.setIdentity [] []
    -- the port is passed as a `quint16`
    let port := w.settings.port % 65536
    match server.start port (w.env.binds port) with
    | (false, server) => { w with server := server, listenError := server.lastError }
    | (true, server) => { w with server := server, listenError := [] }

def stopListening (w : World) : World :=
  if ¬ w.server.isListening then w
  else
    let w := w.finishSession (str "cancelled")
    { w with server := w.server.stop }

def onSettingsChanged (w : World) : World :=
  if ¬ w.server.isListening then w else w.stopListening.startListening

end

end World

end LocalSend
