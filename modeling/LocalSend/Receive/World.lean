import LocalSend.Core.RateLimiter
import LocalSend.Core.Settings
import LocalSend.Http.Connection
import LocalSend.Http.Server
import LocalSend.Models.Devices
import LocalSend.Models.History
import LocalSend.Models.Transfer
import Mathlib.Data.List.AList

/-!
# The receiving side and what it runs in

`World` is one flat record: the members of `ReceiveService`, the objects it is given, every
connection, the files, and what the system will answer next (`Env`), which only the system changes.
`log` is a ghost: it grows by one entry for each thing the service does that others see.
-/

set_option autoImplicit false

namespace LocalSend

/-- Connections are numbered as they come in. A connection streams to the file of its number. -/
abbrev ConnId := Nat

inductive Node
  | file (content : QByteArray)
  | directory
  deriving DecidableEq

abbrev Disk := QString → Option Node

/-- An open `HashingFile`: every byte its `write` took has been hashed. -/
structure HashingFile where
  path : QString
  written : QByteArray
  deriving DecidableEq

/-- What the system answers: which calls succeed, how many bytes a write takes, how many of the
bytes written to a file are on the disk once it is closed. -/
structure Env where
  mkpath : QString → Bool
  opens : QString → Bool
  writable : QString → Nat
  kept : QString → Nat
  removes : QString → Bool
  renames : QString → QString → Bool
  binds : Int → Option QString
  issue : Issue

/-- One file being written. -/
structure Upload where
  row : Nat
  file : FileId
  partPath : QString
  finalPath : QString
  deriving DecidableEq

/-- What the service does, with the connection it does it for. -/
inductive Effect
  /-- A prepare-upload got as far as `TransferModel::begin`. -/
  | begun (i : ConnId) (request : HttpConnection) (peer : DeviceInfo) (files : List FileEntry)
  /-- `requestArrived`: the accept page comes up. -/
  | prompted (aliasName : QString) (fileCount : Nat) (totalBytes : Int)
  /-- `accept` opened a session and answered with its id and tokens. -/
  | issued (sessionId address : QString) (tokens : AList fun _ : QString => QString)
  | started
  /-- An upload was let in at its headers, for this row. -/
  | opened (i : ConnId) (request : HttpConnection) (row : Nat)
  /-- Bytes of a request body went to a file. -/
  | wrote (i : ConnId) (request : HttpConnection) (path : QString) (data : QByteArray)
  | fileStatus (row : Nat) (status : FileStatus)
  /-- The row's file is complete, under this path and with this content. -/
  | stored (i : ConnId) (row : Nat) (path : QString) (content : QByteArray)
  | remembered (fingerprint aliasName : QString)
  | recorded (record : HistoryModel.Record)
  /-- The session is over. -/
  | ended
  | transferFinished (status : QString) (fileCount : Nat) (destination : QString)
  /-- A request of our own to the peer. -/
  | posted (url : QString) (sessionId : QString)

structure World where
  settings : AppSettings
  server : HttpServer
  known : KnownDevices
  devices : DeviceModel
  discovering : Bool
  history : HistoryModel
  transfer : TransferModel
  conns : ConnId → HttpConnection
  nextConn : ConnId
  pending : Option ConnId
  peer : DeviceInfo
  sessionId : QString
  sessionAddress : QString
  sessionDirectory : QString
  tokens : AList fun _ : QString => QString
  uploads : AList fun _ : ConnId => Upload
  acceptTimer : Bool
  idleTimer : Bool
  listenError : QString
  pinAttempts : RateLimiter
  handles : FileId → Option HashingFile
  disk : Disk
  env : Env
  random : Crypto.Random
  drawn : Nat
  now : Nat
  log : List Effect

namespace World

def emit (e : Effect) (w : World) : World := { w with log := w.log ++ [e] }

def setConn (i : ConnId) (c : HttpConnection) (w : World) : World :=
  { w with conns := Function.update w.conns i c }

def setState (state : TransferState) (error : QString) (w : World) : World :=
  { w with transfer := w.transfer.setState state error }

def setFileStatus (row : Nat) (status : FileStatus) (error : QString) (w : World) : World :=
  { w with
    transfer := w.transfer.setFileStatus row status error
    log := w.log ++ [.fileStatus row status] }

/-- `Protocol::generateToken`. -/
def generateToken (w : World) : QString × World :=
  (Crypto.generateToken w.random w.drawn, { w with drawn := w.drawn + 1 })

/-! ## Files -/

/-- `QFile::exists`. -/
def fileExists (w : World) (path : QString) : Bool := (w.disk path).isSome

/-- `QDir::mkpath`: the folder and those above it, if the system lets us. -/
def mkpath (path : QString) (w : World) : Bool × World :=
  if w.env.mkpath path then
    (true, { w with
      disk := fun q =>
        if w.disk q = none ∧ (q = path ∨ (q ++ [47]).isPrefixOf path) then some .directory
        else w.disk q })
  else (false, w)

/-- Opens a file for writing, created or truncated. -/
def openFile (path : QString) (w : World) : Bool × World :=
  if w.env.opens path ∧ w.disk path ≠ some .directory then
    (true, { w with disk := Function.update w.disk path (some (.file [])) })
  else (false, w)

def removeFile (path : QString) (w : World) : World :=
  if w.env.removes path ∧ w.disk path ≠ some .directory then
    { w with disk := Function.update w.disk path none }
  else w

/-- `QFile::rename`, which does not overwrite. -/
def renameFile (path target : QString) (w : World) : Bool × World :=
  match w.disk path with
  | some node =>
    if w.env.renames path target ∧ w.disk target = none then
      (true, { w with disk := Function.update (Function.update w.disk path none) target (some node) })
    else (false, w)
  | none => (false, w)

/-- `HashingFile::write` on the file of the connection `i`; nothing is taken once it is closed. -/
def write (i : ConnId) (f : FileId) (data : QByteArray) (w : World) : Nat × World :=
  match w.handles f with
  | none => (0, w)
  | some h =>
    let taken := data.take (w.env.writable h.path)
    (taken.length, { w with
      handles := Function.update w.handles f (some { h with written := h.written ++ taken })
      log := w.log ++ [.wrote i (w.conns i) h.path taken] })

/-- `flush` and `close`: what reached the disk is there now. -/
def closeFile (f : FileId) (w : World) : World :=
  match w.handles f with
  | none => w
  | some h => { w with
      disk := Function.update w.disk h.path (some (.file (h.written.take (w.env.kept h.path))))
      handles := Function.update w.handles f none }

/-- `QFile::size` of a closed file. -/
def fileSize (w : World) (path : QString) : Nat :=
  match w.disk path with
  | some (.file content) => content.length
  | _ => 0

end World

end LocalSend
