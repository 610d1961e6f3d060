import Metering.Key.Rsa
import Metering.Store.Disk

/-!
Keys in files.
-/
namespace Metering

/-- What is said of a file that is not well-formed text. -/
def notText : IoFault := .stated "stream did not contain valid UTF-8"

/-- The text of a key file. -/
def Disk.keyText (d : Disk) (path : String) : Except Failure Bytes :=
  match d.read path with
  | .error e => .error ⟨.key, .keyFile path e⟩
  | .ok data => if (Bytes.toText? data).isSome then .ok data else .error ⟨.key, .keyFile path notText⟩

/-- The public key in a file. -/
def PublicKey.load (d : Disk) (path : String) : Except Failure PublicKey := do
  PublicKey.parse (← d.keyText path)

/-- The private key in a file. -/
def PrivateKey.load (d : Disk) (path : String) : Except Failure PrivateKey := do
  PrivateKey.parse (← d.keyText path)

end Metering
