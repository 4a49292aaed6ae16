/-!
# Well-known services

Ports of the facilities layer and the application identifiers under which their messages are signed.
-/

namespace V2x

/-- An application identifier of the security header. -/
structure Application where
  id : UInt32
  /-- Whether packets signed under it carry a message that can be dissected. -/
  dissected : Bool
  deriving DecidableEq, Repr

namespace Application

def all : List Application :=
  [⟨36, true⟩, ⟨37, true⟩, ⟨137, true⟩, ⟨138, true⟩, ⟨139, true⟩, ⟨140, true⟩, ⟨141, false⟩]

def ofId? (id : UInt32) : Option Application :=
  all.find? (·.id = id)

end Application

structure Service where
  port : UInt16
  name : String
  /-- The application identifier its messages are signed under. -/
  application : Option UInt32
  /-- Whether datagrams to the port carry a message that can be dissected. -/
  dissected : Bool
  deriving DecidableEq, Repr

namespace Service

def all : List Service :=
  [ ⟨2001, "CA (CAM)", some 36, true⟩,
    ⟨2002, "DEN (DENM)", some 37, true⟩,
    ⟨2003, "RLT (MAPEM)", some 138, true⟩,
    ⟨2004, "TLM (SPATEM)", some 137, true⟩,
    ⟨2005, "SA (SAEM)", none, false⟩,
    ⟨2006, "IVI (IVIM)", some 139, true⟩,
    ⟨2007, "TLC (SREM)", some 140, true⟩,
    ⟨2008, "TLC (SSEM)", some 140, true⟩,
    ⟨2009, "CPS", none, false⟩,
    ⟨2010, "EVCSN POI", none, true⟩,
    ⟨2011, "TPG", none, true⟩,
    ⟨2012, "Charging", none, true⟩,
    ⟨2013, "GPC (RTCMEM)", none, false⟩,
    ⟨2014, "CTL (CTLM)", none, false⟩,
    ⟨2015, "CRL (CRLM)", none, false⟩,
    ⟨2016, "Certificate request", none, false⟩ ]

def ofPort? (port : UInt16) : Option Service :=
  all.find? (·.port = port)

end Service

end V2x
