import Metering.Ingest.Layers
import Metering.Key.File
import Metering.Server.Settings
import Metering.Store.ConnectionString
import Metering.Store.Database

/-!
How a server starts.

The store is opened first, the snapshot file is read into it next, and the private key is loaded
last; the first of these that fails keeps the server from starting. With a database the snapshot
file is not used. A server that stops saves once more.
-/
namespace Metering

/-- Why a server does not start, or does not stop well. -/
inductive ServerFault
  | store (f : StoreFault)
  | failure (f : Failure)
  | io (f : IoFault)
deriving DecidableEq, Repr

/-- A server: how it handles requests, and where it saves. -/
structure Server where
  ingest : Ingest
  file : Option SnapshotFile
  settings : ServerSettings

namespace ServerFault

def message : ServerFault → String
  | store f => f.message
  | failure f => f.message
  | io f => f.message

end ServerFault

namespace Server

/-- What connecting to a database comes to. No database can be reached from here. -/
def openDatabase (address : String) : StoreFault :=
  match ConnectionString.check address with
  | .error e => ⟨.fatal, .badConnectionString e.message⟩
  | .ok () => (DatabaseFault.io IoFault.networkUnreachable.message).toStoreFault

/-- The snapshot file that the settings name. -/
def snapshotFile (s : ServerSettings) : Option SnapshotFile := s.file.map fun path => ⟨path⟩

/-- The store that a server starts with. -/
def openStore (s : ServerSettings) (disk : Disk) : Except StoreFault Ledger :=
  match s.database, snapshotFile s with
  | some address, _ => .error (openDatabase address)
  | none, some file =>
    if s.restores then
      match file.restore Ledger.store .empty disk with
      | (.ok _, l) => .ok l
      | (.error e, _) => .error e
    else .ok .empty
  | none, none => .ok .empty

/-- The keys of a server; it seals nothing. -/
def loadKeys (s : ServerSettings) (disk : Disk) : Except Failure WireKeys := do
  let opening ← s.keyFile.mapM (PrivateKey.load disk)
  return ⟨s.signingKey.map fun k => ⟨Bytes.ofText k⟩, none, opening⟩

/-- Starts a server, with or without an audit trail. -/
def start (s : ServerSettings) (audits : Bool) (disk : Disk) :
    Except ServerFault (Server × Ledger) := do
  let ledger ← (openStore s disk).mapError .store
  let keys ← (loadKeys s disk).mapError .failure
  let file := snapshotFile s
  let savesTo := if s.savesEveryWrite then file else none
  return (⟨⟨keys, s.network, ⟨savesTo, audits⟩⟩, file, s⟩, ledger)

/-- The save with which a server stops. -/
def finalSave (server : Server) : ServerTask (Except StoreFault Unit) :=
  match server.file with
  | some file => file.saveTask.map fun r => r.map fun _ => ()
  | none => .done (.ok ())

end Server
end Metering
