import V2x.Schema.Frames

/-!
# Extensions of region group C

The eight regional extensions that have a grammar.
-/

namespace V2x.Schema.GroupC

def connectionManeuverAssist : Schema :=
  .ofField <| .sequence "ConnectionManeuverAssist-addGrpC" true <|
    .optional
      (.sequenceOf "itsStationPosition" 1 5 <|
        .sequence "ItsStationPosition" true <|
          .required stationId <|
          .optional (.integer "laneID" 0 255) <|
          .optional (nodeOffset "nodeXY") <|
          .optional (.integer "timeReference" 0 60000) .done)
      .done

/-- The attributes that a node may carry cannot be decoded. -/
def connectionTrajectory : Schema :=
  .ofField <| .sequence "ConnectionTrajectory-addGrpC" true <|
    .required
      (.sequenceOf "nodes" 2 63 <|
        .sequence "NodeXY" true <|
          .required (nodeOffset "delta") <|
          .optional (.unsupported "NodeAttributeSetXY") .done) <|
    .required (.integer "connectionID" 0 255) .done

def control : Schema :=
  .ofField <| .sequence "Control-addGrpC" true <|
    .required
      (.enumerated "ptvRequest"
        ["preRequest", "mainRequest", "doorCloseRequest", "cancelRequest", "emergencyRequest"]
        true)
      .done

def intersectionState : Schema :=
  .ofField <| .sequence "IntersectionState-addGrpC" true <|
    .optional
      (.sequenceOf "activePrioritizations" 1 10 <|
        .sequence "PrioritizationResponse" true <|
          .required stationId <|
          .required (responseStatus "priorState") <|
          .required (.integer "signalGroup" 0 255) .done)
      .done

def mapData : Schema :=
  .ofField <| .sequence "MapData-addGrpC" true <|
    .optional
      (.sequenceOf "signalHeadLocations" 1 64 <|
        .sequence "SignalHeadLocation" true <|
          .required (nodeOffset "nodeXY") <|
          .required (.integer "nodeZ" (-12700) 12800) <|
          .required (.integer "signalGroupID" 0 255) .done)
      .done

def position3D : Schema :=
  .ofField <| .sequence "Position3D-addGrpC" true <|
    .required (altitude "altitude") .done

def restrictionUserType : Schema :=
  .ofField <| .sequence "RestrictionUserType-addGrpC" true <|
    .optional
      (.enumerated "emission" ["euro1", "euro2", "euro3", "euro4", "euro5", "euro6"] true) <|
    .optional (.integer "fuel" 0 15) .done

def signalStatusPackage : Schema :=
  .ofField <| .sequence "SignalStatusPackage-addGrpC" true <|
    .optional (.integer "synchToSchedule" (-122) 121) <|
    .optional
      (.enumerated "rejectedReason"
        ["unknown", "exceptionalCondition", "maxWaitingTimeExceeded", "ptPriorityDisabled",
         "higherPTPriorityGranted", "vehicleTrackingUnknown"]
        true)
      .done

end V2x.Schema.GroupC
