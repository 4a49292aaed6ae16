/-!
# Message families

The message identifiers that have a name.
-/

namespace V2x

structure MessageFamily where
  id : UInt8
  /-- The name by which a grammar is chosen. -/
  name : String
  /-- The name that the header shows. -/
  label : String
  deriving DecidableEq, Repr

namespace MessageFamily

def all : List MessageFamily :=
  [ ⟨1, "DENM", "denm"⟩,
    ⟨2, "CAM", "cam"⟩,
    ⟨3, "POI", "poi"⟩,
    ⟨4, "SPATEM", "spatem"⟩,
    ⟨5, "MAPEM", "mapem"⟩,
    ⟨6, "IVIM", "ivim"⟩,
    ⟨7, "EVRSR", "ev-rsr"⟩,
    ⟨8, "TISTPG", "tistpgtransaction"⟩,
    ⟨9, "SREM", "srem"⟩,
    ⟨10, "SSEM", "ssem"⟩,
    ⟨11, "EVCSN", "evcsn"⟩,
    ⟨12, "SAEM", "saem"⟩,
    ⟨13, "RTCMEM", "rtcmem"⟩ ]

def ofId? (id : UInt8) : Option MessageFamily :=
  all.find? (·.id = id)

def label? (id : UInt8) : Option String :=
  (ofId? id).map label

end MessageFamily

end V2x
