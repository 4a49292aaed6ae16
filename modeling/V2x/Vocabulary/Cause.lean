/-!
# Causes of traffic events

A cause code selects the names of the sub-cause code that follows it. Causes without names of their
own leave the sub-cause a plain number.
-/

namespace V2x

/-- The name under which a sub-cause code is shown and the names of its values, from zero on. -/
structure Vocabulary where
  field : String
  labels : List String
  deriving DecidableEq, Repr

namespace Vocabulary

/-- For causes that are reserved, unknown or not given. -/
def generic : Vocabulary :=
  ⟨"subCauseCode", []⟩

def isGeneric (v : Vocabulary) : Bool :=
  v = generic

def label? (v : Vocabulary) (value : UInt8) : Option String :=
  v.labels[value.toNat]?

end Vocabulary

structure Cause where
  code : UInt8
  label : String
  subCauses : List String
  deriving DecidableEq, Repr

namespace Cause

def all : List Cause :=
  [
    ⟨1, "trafficCondition",
      ["unavailable", "increasedVolumeOfTraffic", "trafficJamSlowlyIncreasing",
       "trafficJamIncreasing", "trafficJamStronglyIncreasing", "trafficStationary",
       "trafficJamSlightlyDecreasing", "trafficJamDecreasing", "trafficJamStronglyDecreasing"]⟩,
    ⟨2, "accident",
      ["unavailable", "multiVehicleAccident", "heavyAccident", "accidentInvolvingLorry",
       "accidentInvolvingBus", "accidentInvolvingHazardousMaterials", "accidentOnOppositeLane",
       "unsecuredAccident", "assistanceRequested"]⟩,
    ⟨3, "roadworks",
      ["unavailable", "majorRoadworks", "roadMarkingWork", "slowMovingRoadMaintenance",
       "shortTermStationaryRoadworks", "streetCleaning", "winterService"]⟩,
    ⟨6, "adverseWeatherCondition-Adhesion",
      ["unavailable", "heavyFrostOnRoad", "fuelOnRoad", "mudOnRoad", "snowOnRoad", "iceOnRoad",
       "blackIceOnRoad", "oilOnRoad", "looseChippings", "instantBlackIce", "roadsSalted"]⟩,
    ⟨9, "hazardousLocation-SurfaceCondition",
      ["unavailable", "rockfalls", "earthquakeDamage", "sewerCollapse", "subsidence",
       "snowDrifts", "stormDamage", "burstPipe", "volcanoEruption", "fallingIce"]⟩,
    ⟨10, "hazardousLocation-ObstacleOnTheRoad",
      ["unavailable", "shedLoad", "partsOfVehicles", "partsOfTyres", "bigObjects", "fallenTrees",
       "hubCaps", "waitingVehicles"]⟩,
    ⟨11, "hazardousLocation-AnimalOnTheRoad",
      ["unavailable", "wildAnimals", "herdOfAnimals", "smallAnimals", "largeAnimals"]⟩,
    ⟨12, "humanPresenceOnTheRoad",
      ["unavailable", "childrenOnRoadway", "cyclistOnRoadway", "motorcyclistOnRoadway"]⟩,
    ⟨14, "wrongWayDriving",
      ["unavailable", "wrongLane", "wrongDirection"]⟩,
    ⟨15, "rescueAndRecoveryWorkInProgress",
      ["unavailable", "emergencyVehicles", "rescueHelicopterLanding", "policeActivityOngoing",
       "medicalEmergencyOngoing", "childAbductionInProgress"]⟩,
    ⟨17, "adverseWeatherCondition-ExtremeWeatherCondition",
      ["unavailable", "strongWinds", "damagingHail", "hurricane", "thunderstorm", "tornado",
       "blizzard"]⟩,
    ⟨18, "adverseWeatherCondition-Visibility",
      ["unavailable", "fog", "smoke", "heavySnowfall", "heavyRain", "heavyHail", "lowSunGlare",
       "sandstorms", "swarmsOfInsects"]⟩,
    ⟨19, "adverseWeatherCondition-Precipitation",
      ["unavailable", "heavyRain", "heavySnowfall", "softHail"]⟩,
    ⟨26, "slowVehicle",
      ["unavailable", "maintenanceVehicle", "vehiclesSlowingToLookAtAccident", "abnormalLoad",
       "abnormalWideLoad", "convoy", "snowplough", "deicing", "saltingVehicles"]⟩,
    ⟨27, "dangerousEndOfQueue",
      ["unavailable", "suddenEndOfQueue", "queueOverHill", "queueAroundBend", "queueInTunnel"]⟩,
    ⟨91, "vehicleBreakdown",
      ["unavailable", "lackOfFuel", "lackOfBatteryPower", "engineProblem", "transmissionProblem",
       "engineCoolingProblem", "brakingSystemProblem", "steeringProblem", "tyrePuncture",
       "tyrePressureProblem"]⟩,
    ⟨92, "postCrash",
      ["unavailable", "accidentWithoutECallTriggered", "accidentWithECallManuallyTriggered",
       "accidentWithECallAutomaticallyTriggered",
       "accidentWithECallTriggeredWithoutAccessToCellularNetwork"]⟩,
    ⟨93, "humanProblem",
      ["unavailable", "glycemiaProblem", "heartProblem"]⟩,
    ⟨94, "stationaryVehicle",
      ["unavailable", "humanProblem", "vehicleBreakdown", "postCrash", "publicTransportStop",
       "carryingDangerousGoods"]⟩,
    ⟨95, "emergencyVehicleApproaching",
      ["unavailable", "emergencyVehicleApproaching", "prioritizedVehicleApproaching"]⟩,
    ⟨96, "hazardousLocation-DangerousCurve",
      ["unavailable", "dangerousLeftTurnCurve", "dangerousRightTurnCurve",
       "multipleCurvesStartingWithUnknownTurningDirection", "multipleCurvesStartingWithLeftTurn",
       "multipleCurvesStartingWithRightTurn"]⟩,
    ⟨97, "collisionRisk",
      ["unavailable", "longitudinalCollisionRisk", "crossingCollisionRisk",
       "lateralCollisionRisk", "vulnerableRoadUser"]⟩,
    ⟨98, "signalViolation",
      ["unavailable", "stopSignViolation", "trafficLightViolation", "turningRegulationViolation"]⟩,
    ⟨99, "dangerousSituation",
      ["unavailable", "emergencyElectronicBrakeEngaged", "preCrashSystemEngaged", "espEngaged",
       "absEngaged", "aebEngaged", "brakeWarningEngaged", "collisionRiskWarningEngaged"]⟩
  ]

def ofCode? (code : UInt8) : Option Cause :=
  all.find? (·.code = code)

/-- The name of a cause code. Zero has a name, but is no cause. -/
def label? (code : UInt8) : Option String :=
  if code = 0 then some "reserved" else (ofCode? code).map label

/-- The vocabulary of the sub-causes of a cause, named after it. -/
def vocabulary (cause : Cause) : Vocabulary :=
  ⟨cause.label ++ "SubCauseCode", cause.subCauses⟩

def vocabularyFor (code : UInt8) : Vocabulary :=
  ((ofCode? code).map vocabulary).getD .generic

end Cause

end V2x
