import Metering.Net.Network

/-!
What an operator sets for a server.
-/
namespace Metering

/-- The settings of a server. Times are in milliseconds. -/
structure ServerSettings where
  address : String
  callAddress : Option String
  /-- The time between two saves; zero stands for a save after every write. -/
  saveInterval : Nat
  file : Option String
  restores : Bool
  database : Option String
  signingKey : Option String
  keyFile : Option String
  network : Option Network
  /-- How long requests under way may take when the server stops. -/
  drainLimit : Nat
deriving DecidableEq

namespace ServerSettings

/-- The settings that hold where nothing is set. -/
def standard : ServerSettings where
  address := "localhost:8080"
  callAddress := none
  saveInterval := 300000
  file := some "/tmp/metrics-db.json"
  restores := true
  database := none
  signingKey := none
  keyFile := none
  network := none
  drainLimit := 5000

/-- Whether every write is followed by a save. -/
def savesEveryWrite (s : ServerSettings) : Bool := s.saveInterval == 0

end ServerSettings
end Metering
