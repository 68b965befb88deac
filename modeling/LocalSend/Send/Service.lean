import LocalSend.Send.Sender

/-!
# Sending files

The functions of `SendService`, under its names. `busyChanged` is left out: the pages read `busy`.
-/

set_option autoImplicit false

namespace LocalSend

namespace SendService

/-- The peer of a transfer, as the row of the device list describes it. -/
def peerOf (device : DeviceInfo) : DeviceInfo where
  aliasName := device.aliasName
  deviceModel := device.deviceModel
  deviceType := device.deviceType
  fingerprint := device.fingerprint
  address := device.address
  port := device.port
  protocol := device.protocol

end SendService

namespace Sender

/-- The rows of the files that can be read; the position in the list makes an id unique. -/
def fileEntries : Nat → List QString → Sender → List FileEntry × Sender
  | _, [], w => ([], w)
  | i, path :: paths, w =>
    match w.files path with
    | none => fileEntries (i + 1) paths w
    | some file =>
      let (token, w) := w.generateToken
      let (entries, w) := fileEntries (i + 1) paths w
      ({ id := QString.number i ++ [45] ++ token.take 12
         fileName := QFileInfo.fileName path
         size := file.content.length
         localPath := path
         fileType := file.mimeType } :: entries, w)

/-- What the receiver is told of a row. -/
def descriptor (f : FileEntry) : QJsonObject := [
  (str "fileName", .string f.fileName),
  (str "fileType", .string f.fileType),
  (str "id", .string f.id),
  (str "size", .double f.size)]

def prepareBody (w : Sender) : QJsonObject := [
  (str "files", .object (w.transfer.files.foldl
    (fun files f => QJsonObject.insert files f.id (.object (descriptor f))) [])),
  (str "info", .object w.settings.self.toRegisterBody)]

/-- The request to the peer of the transfer, which is the one whose end is waited for. -/
def postToPeer (content : Content) (slot : ReplySlot) (w : Sender) : Sender :=
  let w' := w.post (requestTo w.service.peer content slot)
  { w' with service := { w'.service with reply := some w.nextReply } }

def closeCurrentFile (w : Sender) : Sender :=
  { w with service := { w.service with currentFile := none } }

def writeHistory (w : Sender) : Sender :=
  if ¬ w.settings.historyEnabled then w
  else
    let (id, w) := if w.service.sessionId = [] then w.generateToken else (w.service.sessionId, w)
    let done := w.transfer.files.filter fun f => f.status = .done
    if done = [] then w
    else { w with history := w.history.append {
      id := id
      direction := str "send"
      peerAlias := w.service.peer.aliasName
      peerDeviceType := w.service.peer.deviceType
      timestamp := w.now
      fileNames := done.map (·.fileName)
      totalBytes := done.foldl (fun total f => wrap64 (total + f.size)) 0
      status := w.transfer.stateName
      destination := [] } }

/-- The transfer is over. -/
def leave (status : QString) (files : Nat) (w : Sender) : Sender :=
  { w with service := { w.service with busy := false, sessionId := [] } }.signal
    (.finished status files)

/-- Every row the predicate picks is skipped. -/
def skipRows (p : FileStatus → Bool) (w : Sender) : Sender :=
  (List.range w.transfer.fileCount).foldl (fun w row =>
    if p (w.transfer.entry row).status then w.setFileStatus row .skipped [] else w) w

def failTransfer (message : QString) (w : Sender) : Sender :=
  let w := (w.closeCurrentFile.skipRows (· = .waiting)).setState .failed message
  (if w.transfer.completedCount > 0 then w.writeHistory else w).leave (str "failed")
    w.transfer.completedCount

variable [Qt]

def requestUpload (pin : QString) (w : Sender) : Sender :=
  w.postToPeer (.fileList pin (Qt.toJson w.prepareBody)) .prepared

/-- The service is this transfer's from here on. -/
def beginSending (peer : DeviceInfo) (entries : List FileEntry) (w : Sender) : Sender :=
  { w with
    service := { w.service with
      peer := peer
      sessionId := []
      cancelled := false
      pinAttempted := false
      busy := true }
    transfer := w.transfer.begin .sending peer.aliasName peer.address peer.deviceType
      peer.fingerprint entries }

def sendFiles (device : DeviceInfo) (paths : List QString) (w : Sender) : Sender :=
  let peer := SendService.peerOf device
  if w.service.busy ∨ peer.address = [] ∨ paths = [] then w
  else if w.known.isBlocked peer.fingerprint then
    { w with
      transfer := w.transfer.begin .sending peer.aliasName peer.address peer.deviceType
        peer.fingerprint [] }.setState .failed (str "This device is blocked")
  else
    let (entries, w) := fileEntries 0 paths w
    if entries = [] then w
    else ((w.beginSending peer entries).setState .requesting []).requestUpload []

def submitPin (pin : QString) (w : Sender) : Sender :=
  if ¬ w.service.busy ∨ pin = [] then w
  else
    let w := { w with service := { w.service with pinAttempted := true } }
    (w.setState .requesting []).requestUpload pin

def completeTransfer (w : Sender) : Sender :=
  let done := w.transfer.completedCount
  let total := w.transfer.fileCount
  let w :=
    if done = total then w.setState .finished []
    else if done > 0 then w.setState .failed
      (QString.number done ++ str " of " ++ QString.number total ++ str " files were sent")
    else w.setState .failed (str "Nothing was sent")
  let peer := w.service.peer
  let w := if done > 0 then
      { w with known := w.known.remember w.now peer.fingerprint peer.aliasName }
    else w
  w.writeHistory.leave w.transfer.stateName done

/-- The current row, whose file is open, goes up. -/
def uploadRow (row : Nat) (content : QByteArray) (w : Sender) : Sender :=
  let entry := w.transfer.entry row
  let w := { w with service := { w.service with currentFile := some entry.localPath } }
  (w.setFileStatus row .transferring []).postToPeer
    (.fileBytes w.service.sessionId entry.id entry.token entry.size content) (.uploaded row)

/-- The first of these rows that is waiting and whose file can be opened. -/
def startRows : List Nat → Sender → Sender
  | [], w => w.completeTransfer
  | row :: rows, w =>
    if (w.transfer.entry row).status ≠ .waiting then startRows rows w
    else
      let w := { w with service := { w.service with currentRow := some row } }
      match w.files (w.transfer.entry row).localPath with
      | some ⟨content, _, true⟩ => w.uploadRow row content
      | _ => startRows rows (w.setFileStatus row .failed (str "Could not open the file"))

def startNextFile (w : Sender) : Sender :=
  let w := w.closeCurrentFile
  if w.service.cancelled then w
  else
    let next := match w.service.currentRow with
      | some row => row + 1
      | none => 0
    startRows ((List.range w.transfer.fileCount).drop next) w

/-- Each row gets its token, or is skipped. Counts the former. -/
def takeTokens (tokens : QJsonObject) (w : Sender) : Nat × Sender :=
  (List.range w.transfer.fileCount).foldl (fun (accepted, w) row =>
    let token := (tokens.value (w.transfer.entry row).id).toString []
    if token = [] then (accepted, w.setFileStatus row .skipped [])
    else (accepted + 1, { w with transfer := w.transfer.setFileToken row token })) (0, w)

def forgetReply (id : ReplyId) (w : Sender) : Sender :=
  if w.service.reply = some id then { w with service := { w.service with reply := none } } else w

/-- The end of a transfer of which no file was sent. -/
def quit (state : TransferState) (status : QString) (w : Sender) : Sender :=
  let w := w.setState state []
  { w with service := { w.service with busy := false } }.signal (.finished status 0)

/-- The answer to a prepare-upload that was accepted, for all of the files or for some. -/
def onAccepted (body : QByteArray) (w : Sender) : Sender :=
  let unreadable := w.service.peer.aliasName ++ str " sent an unreadable reply"
  match Qt.fromJson body with
  | none => w.failTransfer unreadable
  | some response =>
    let sessionId := (response.value (str "sessionId")).toString []
    let tokens := (response.value (str "files")).toObject
    let w := { w with service := { w.service with sessionId := sessionId } }
    if sessionId = [] ∨ tokens = [] then w.failTransfer unreadable
    else
      let (accepted, w) := w.takeTokens tokens
      if accepted = 0 then w.quit .finished (str "finished")
      else
        let w := w.setState .active []
        { w with service := { w.service with currentRow := none } }.startNextFile

/-- `onPrepareFinished`; a status of zero stands for none. -/
def onPrepareFinished (id : ReplyId) (error : Bool) (status : Nat) (body : QByteArray)
    (w : Sender) : Sender :=
  let w := w.forgetReply id
  let aliasName := w.service.peer.aliasName
  if w.service.cancelled then w
  else if error ∧ status = 0 then w.failTransfer (str "Could not reach " ++ aliasName)
  else match status with
    | 200 => w.onAccepted body
    | 204 => w.quit .finished (str "finished")
    | 401 => (w.setState .idle []).signal (.pinRequired w.service.pinAttempted)
    | 403 => (w.signal .declined).quit .cancelled (str "declined")
    | 409 => w.failTransfer (aliasName ++ str " is busy with another transfer")
    | 429 => w.failTransfer (aliasName ++ str " is refusing new requests")
    | _ => w.failTransfer (aliasName ++ str " refused the transfer (" ++ QString.number status
      ++ str ")")

/-- A row number of -1 is out of range. -/
def settleCurrent (status : FileStatus) (error : QString) (w : Sender) : Sender :=
  match w.service.currentRow with
  | some row => w.setFileStatus row status error
  | none => w

/-- `onUploadFinished`. What the network manager says of an error is passed in. -/
def onUploadFinished (id : ReplyId) (error : Bool) (status : Nat) (errorString : QString)
    (w : Sender) : Sender :=
  let w := w.forgetReply id
  if w.service.cancelled then w
  else
    if ¬ error ∧ 200 ≤ status ∧ status < 300 then (w.settleCurrent .done []).startNextFile
    else if status = 409 then
      (w.settleCurrent .failed (str "The transfer was stopped")).failTransfer
        (w.service.peer.aliasName ++ str " stopped the transfer")
    else (w.settleCurrent .failed errorString).startNextFile

def notifyPeerCancelled (w : Sender) : Sender :=
  if w.service.sessionId = [] ∨ w.service.peer.address = [] then w
  else w.post (requestTo w.service.peer (.cancellation w.service.sessionId) .ignored)

/-- The request that is waited for is aborted; its slot finds the transfer cancelled. -/
def abortReply (w : Sender) : Sender :=
  let w' := match w.service.reply with
    | some id => w.setReply id none
    | none => w
  { w' with service := { w'.service with cancelled := true, reply := none } }

def cancel (w : Sender) : Sender :=
  if ¬ w.service.busy then w
  else
    let w := (w.abortReply.closeCurrentFile.notifyPeerCancelled.skipRows
      fun s => s = .waiting ∨ s = .transferring).setState .cancelled []
    (if w.transfer.completedCount > 0 then w.writeHistory else w).leave (str "cancelled")
      w.transfer.completedCount

end Sender

end LocalSend
