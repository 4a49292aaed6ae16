import V2x.Schema.Basic

/-!
# Data frames

Fields that several messages and regional extensions share.
-/

namespace V2x.Schema

def cause (name : String) : Field :=
  .sequence name true <|
    .required .causeCode <|
    .required .subCauseCode .done

def altitude (name : String) : Field :=
  .sequence name false <|
    .required (.integer "value" (-100000) 800001) <|
    .required
      (.enumerated "confidence"
        ["alt-000-01", "alt-000-02", "alt-000-05", "alt-000-10", "alt-000-20", "alt-000-50",
         "alt-001-00", "alt-002-00", "alt-005-00", "alt-010-00", "alt-020-00", "alt-050-00",
         "alt-100-00", "alt-200-00", "outOfRange", "unavailable"]
        false)
      .done

/-- A position as two signed offsets of `width` bits. -/
def offset (name : String) (width : Nat) : Field :=
  let half : Int := 2 ^ (width - 1)
  .sequence name false <|
    .required (.integer "x" (-half) (half - 1)) <|
    .required (.integer "y" (-half) (half - 1)) .done

/-- A position relative to the one before it, in the shortest form that holds it. -/
def nodeOffset (name : String) : Field :=
  .choice name "NodeOffsetPointXY" false <|
    .or (offset "node-XY1" 10) <|
    .or (offset "node-XY2" 11) <|
    .or (offset "node-XY3" 12) <|
    .or (offset "node-XY4" 13) <|
    .or (offset "node-XY5" 14) <|
    .or (offset "node-XY6" 16) <|
    .or (.sequence "node-LatLon" false <|
      .required (.integer "lon" (-1799999999) 1800000001) <|
      .required (.integer "lat" (-900000000) 900000001) .done) <|
    .or (.sequence "regional" false <|
      .required (.regionalExtension .nodeOffsetPointXY) .done)
    .done

def intersectionReference (name : String) : Field :=
  .sequence name false <|
    .optional (.integer "region" 0 65535) <|
    .required (.integer "id" 0 65535) .done

def accessPoint (name : String) : Field :=
  .choice name "IntersectionAccessPoint" true <|
    .or (.integer "lane" 0 255) <|
    .or (.integer "approach" 0 15) <|
    .or (.integer "connection" 0 255)
    .done

def responseStatuses : List String :=
  ["unknown", "requested", "processing", "watchOtherTraffic", "granted", "rejected", "maxPresence",
   "reserviceLocked"]

def responseStatus (name : String) : Field :=
  .enumerated name responseStatuses true

def vehicleRoles : List String :=
  ["basicVehicle", "publicTransport", "specialTransport", "dangerousGoods", "roadWork",
   "roadRescue", "emergency", "safetyCar", "none-unknown", "truck", "motorcycle",
   "roadSideSource", "police", "fire", "ambulance", "dot", "transit", "slowMoving", "stopNgo",
   "cyclist", "pedestrian", "nonMotorized", "military"]

def vehicleRole (name : String) : Field :=
  .enumerated name vehicleRoles true

def stationId : Field :=
  .integer "stationID" 0 (2 ^ 32 - 1)

def vehicleId (name : String) : Field :=
  .choice name "VehicleID" false <|
    .or (.octets "entityID" 4) <|
    .or stationId
    .done

def requestor (name : String) : Field :=
  .sequence name true <|
    .required (vehicleRole "role") <|
    .optional
      (.enumerated "subrole"
        ["requestSubRoleUnKnown", "requestSubRole1", "requestSubRole2", "requestSubRole3",
         "requestSubRole4", "requestSubRole5", "requestSubRole6", "requestSubRole7",
         "requestSubRole8", "requestSubRole9", "requestSubRole10", "requestSubRole11",
         "requestSubRole12", "requestSubRole13", "requestSubRole14", "requestSubRoleReserved"]
        false) <|
    .optional
      (.enumerated "request"
        ["requestImportanceLevelUnKnown", "requestImportanceLevel1", "requestImportanceLevel2",
         "requestImportanceLevel3", "requestImportanceLevel4", "requestImportanceLevel5",
         "requestImportanceLevel6", "requestImportanceLevel7", "requestImportanceLevel8",
         "requestImportanceLevel9", "requestImportanceLevel10", "requestImportanceLevel11",
         "requestImportanceLevel12", "requestImportanceLevel13", "requestImportanceLevel14",
         "requestImportanceReserved"]
        false) <|
    .optional (.integer "iso3883" 0 100) <|
    .optional
      (.enumerated "hpmsType"
        ["none", "unknown", "special", "moto", "car", "carOther", "bus", "axleCnt2", "axleCnt3",
         "axleCnt4", "axleCnt4Trailer", "axleCnt5Trailer", "axleCnt6Trailer",
         "axleCnt5MultiTrailer", "axleCnt6MultiTrailer", "axleCnt7MultiTrailer"]
        true) <|
    .optional
      (.sequence "regional" false <|
        .required (.regionalExtension .requestorType) .done)
      .done

end V2x.Schema
