import V2x.Schema.Frames

/-!
# Environmental notifications

A notification says who reports an event and, where given, what has happened and where. The container
with further details is shown undecoded.
-/

namespace V2x.Schema.Denm

/-- Seconds for which a notification is valid when it does not say. -/
def defaultValidity : Nat := 600

def referencePosition (name : String) : Field :=
  .sequence name false <|
    .required (.integer "latitude" (-900000000) 900000001) <|
    .required (.integer "longitude" (-1800000000) 1800000001) <|
    .required
      (.sequence "positionConfidenceEllipse" false <|
        .required (.integer "semiMajorConfidence" 0 4095) <|
        .required (.integer "semiMinorConfidence" 0 4095) <|
        .required (.integer "semiMajorOrientation" 0 3601) .done) <|
    .required (altitude "altitude") .done

def deltaPosition (name : String) : Field :=
  .sequence name false <|
    .required (.integer "deltaLatitude" (-131071) 131072) <|
    .required (.integer "deltaLongitude" (-131071) 131072) <|
    .required (.integer "deltaAltitude" (-12700) 12800) .done

def deltaTime (name : String) : Field :=
  .extensibleInteger name 1 65535

def management : Field :=
  .sequence "management" true <|
    .required
      (.sequence "actionID" false <|
        .required (.integer "originatingStationID" 0 (2 ^ 32 - 1)) <|
        .required (.integer "sequenceNumber" 0 65535) .done) <|
    .required (.integer "detectionTime" 0 4398046511103) <|
    .required (.integer "referenceTime" 0 4398046511103) <|
    .optional (.enumerated "termination" ["isCancellation", "isNegation"] false) <|
    .required (referencePosition "eventPosition") <|
    .optional
      (.enumerated "relevanceDistance"
        ["lessThan50m", "lessThan100m", "lessThan200m", "lessThan500m", "lessThan1000m",
         "lessThan5km", "lessThan10km", "over10km"]
        false) <|
    .optional
      (.enumerated "relevanceTrafficDirection"
        ["allTrafficDirections", "upstreamTraffic", "downstreamTraffic", "oppositeTraffic"]
        false) <|
    .defaulted (.integer "validityDuration" 0 86400)
      ((Node.leaf "validityDuration" (.unsigned defaultValidity)).addNote ⟨.note, "default value"⟩) <|
    .optional (.integer "transmissionInterval" 1 10000) <|
    .required (.integer "stationType" 0 255) .done

def eventPoint : Field :=
  .sequence "EventPoint" false <|
    .required (deltaPosition "eventPosition") <|
    .optional (deltaTime "eventDeltaTime") <|
    .required (.integer "informationQuality" 0 7) .done

def situation : Field :=
  .sequence "situation" true <|
    .required (.integer "informationQuality" 0 7) <|
    .required (cause "eventType") <|
    .optional (cause "linkedCause") <|
    .optional (.sequenceOf "eventHistory" 1 23 eventPoint) .done

def pathPoint : Field :=
  .sequence "PathPoint" false <|
    .required (deltaPosition "pathPosition") <|
    .optional (deltaTime "pathDeltaTime") .done

def location : Field :=
  .sequence "location" true <|
    .optional
      (.sequence "eventSpeed" false <|
        .required (.integer "speedValue" 0 16383) <|
        .required (.integer "speedConfidence" 1 127) .done) <|
    .optional
      (.sequence "eventPositionHeading" false <|
        .required (.integer "headingValue" 0 3601) <|
        .required (.integer "headingConfidence" 1 127) .done) <|
    .required (.sequenceOf "traces" 1 7 (.sequenceOf "PathHistory" 0 40 pathPoint)) <|
    .optional
      (.enumerated "roadType"
        ["urban-NoStructuralSeparationToOppositeLanes",
         "urban-WithStructuralSeparationToOppositeLanes",
         "nonUrban-NoStructuralSeparationToOppositeLanes",
         "nonUrban-WithStructuralSeparationToOppositeLanes"]
        false)
      .done

def schema : Schema :=
  .required management <|
  .optional situation <|
  .optional location <|
  .optional (.undecoded "alacarte" "AlacarteContainer not decoded") .done

end V2x.Schema.Denm
