/-
# Service parameters

`Param::Load` collects the settings of a text file, the first line of a name
counting, and then decodes each of the fifteen settings it knows. A step function
that cannot be decoded ends the call with the settings decoded so far in place.
-/
import FlowRetrieval.Common.StepFunction
import FlowRetrieval.CS.Dict
import FlowRetrieval.Util.Cstdlib

namespace FlowRetrieval

open CS

/-- A table indexed by platform and advert type. -/
abbrev PlatformTable (R : Type) := Dict Int32 (Dict Int32 R)

/-- `Param`. -/
structure Param (R : Type) where
  pvUseDelta : Bool
  uvUseDelta : Bool
  avgCtrUsePos : Bool
  avgBidUsePos : Bool
  winRateUsePos : Bool
  winRateUseDelta : Bool
  uvPvMinRate : R
  uvPvMaxRate : R
  maxWinRate : R
  pvStepFunction : StepFunction R
  uvStepFunction : StepFunction R
  winRateStepFunction : StepFunction R
  platformMinBids : PlatformTable R
  winRateScales : PlatformTable R
  winRateThresholds : PlatformTable R

namespace Param

variable {R : Type} [Double R]

/-- A new object, which is also what `Clear` leaves. -/
def empty : Param R where
  pvUseDelta := false
  uvUseDelta := false
  avgCtrUsePos := false
  avgBidUsePos := false
  winRateUsePos := false
  winRateUseDelta := false
  uvPvMinRate := 0.0
  uvPvMaxRate := 0.0
  maxWinRate := 0.0
  pvStepFunction := .empty
  uvStepFunction := .empty
  winRateStepFunction := .empty
  platformMinBids := ∅
  winRateScales := ∅
  winRateThresholds := ∅

/-- `Clear`. -/
def clear (_self : Param R) : Param R := empty

/-- The lookup of `GetMinBids`, `GetWinRateScale` and `GetWinRateThreshold`. -/
def getEntry (table : PlatformTable R) (platform adposType : Int32) : R :=
  match table.lookup platform with
  | none => 0.0
  | some row => (row.lookup adposType).getD 0.0

/-- `GetMinBids`. -/
def getMinBids (param : Param R) (platform adposType : Int32) : R :=
  getEntry param.platformMinBids platform adposType

/-- `GetWinRateScale`. -/
def getWinRateScale (param : Param R) (platform adposType : Int32) : R :=
  getEntry param.winRateScales platform adposType

/-- `GetWinRateThreshold`. -/
def getWinRateThreshold (param : Param R) (platform adposType : Int32) : R :=
  getEntry param.winRateThresholds platform adposType

/-- `GetPvDelta`. -/
def getPvDelta (param : Param R) (x : R) : R := param.pvStepFunction.getValue x

/-- `GetUvDelta`. -/
def getUvDelta (param : Param R) (x : R) : R := param.uvStepFunction.getValue x

/-- `GetWinRateDelta`. -/
def getWinRateDelta (param : Param R) (x : R) : R := param.winRateStepFunction.getValue x

section Load

variable (lib : DoubleLib R)

/-- One line of a parameter file: its name and value, if it has both. -/
def parseLine (line : Str) : Option (Str × Str) :=
  -- empty lines and comments, which begin with a `#`, are skipped
  let str := StringExt.strip line
  if str.isEmpty then none
  else if str.headD 0 = 35 then none
  else
    match StringExt.split str 61 with
    | name :: value :: _ =>
      let name := StringExt.toLower (StringExt.strip name)
      let value := StringExt.strip value
      if !name.isEmpty && !value.isEmpty then some (name, value) else none
    | _ => none

/-- The settings `Load` collects from the lines of a file. -/
def settings (text : Str) : Dict Str Str :=
  (StringExt.lines text).foldl
    (fun buffer line =>
      match parseLine line with
      | none => buffer
      -- `insert` of a map keeps the value of an earlier line
      | some (name, value) => buffer.insertNew name value)
    ∅

/-- `ToBool`. -/
def toBool (str : Str) : Bool :=
  StringExt.toLower (StringExt.strip str) = Str.ofLiteral "true"

/-- `ToDouble`. -/
def toDouble (str : Str) : R := lib.strtod str

/-- `Deserialize` of a table; `map[first][second] = value`. -/
def deserializeTable (str : Str) : PlatformTable R :=
  (StringExt.split2 str 124 44).foldl
    (fun table item =>
      match item with
      | first :: second :: value :: _ =>
        let firstKey := (Cstdlib.strtol (StringExt.strip first)).toInt32
        let secondKey := (Cstdlib.strtol (StringExt.strip second)).toInt32
        table.insert firstKey
          (((table.lookup firstKey).getD ∅).insert secondKey (lib.strtod (StringExt.strip value)))
      | _ => table)
    ∅

/-- The entries at even and at odd positions, the values and the split points. -/
def alternate : List R → List R × List R
  | [] => ([], [])
  | [x] => ([x], [])
  | x :: y :: rest =>
    let (values, splits) := alternate rest
    (x :: values, y :: splits)

/-- `Deserialize` of a step function: the code it returns and the function it leaves. -/
def deserializeFunction (str : Str) : ℤ × StepFunction R :=
  let nums := (StringExt.split str 124).map StringExt.strip
  let array := (nums.filter fun num => !num.isEmpty).map lib.strtod
  let (values, splits) := alternate array
  if values.length ≠ splits.length + 1 then (-1, .empty)
  else (0, (StepFunction.empty.setValues values).setSplits splits)

/-- `Load`, with `none` for a file that cannot be opened: the code it returns and the
object it leaves. -/
def load (self : Param R) (file : Option Str) : ℤ × Param R :=
  let self := self.clear
  match file with
  | none => (-1, self)
  | some text =>
    let buffer := settings text
    -- a setting that the file does not have keeps its value from `Clear`
    let bool (name : String) (old : Bool) : Bool :=
      ((buffer.lookup (.ofLiteral name)).map toBool).getD old
    let double (name : String) (old : R) : R :=
      ((buffer.lookup (.ofLiteral name)).map (toDouble lib)).getD old
    let table (name : String) (old : PlatformTable R) : PlatformTable R :=
      ((buffer.lookup (.ofLiteral name)).map (deserializeTable lib)).getD old
    let function (name : String) (old : StepFunction R) : ℤ × StepFunction R :=
      ((buffer.lookup (.ofLiteral name)).map (deserializeFunction lib)).getD (0, old)
    let self := { self with
      pvUseDelta := bool "pv_use_delta" self.pvUseDelta
      uvUseDelta := bool "uv_use_delta" self.uvUseDelta
      avgCtrUsePos := bool "avg_ctr_use_pos" self.avgCtrUsePos
      avgBidUsePos := bool "avg_bid_use_pos" self.avgBidUsePos
      winRateUsePos := bool "win_rate_use_pos" self.winRateUsePos
      winRateUseDelta := bool "win_rate_use_delta" self.winRateUseDelta
      uvPvMinRate := double "uv_pv_min_rate" self.uvPvMinRate
      uvPvMaxRate := double "uv_pv_max_rate" self.uvPvMaxRate
      maxWinRate := double "max_win_rate" self.maxWinRate
      platformMinBids := table "platform_min_bids" self.platformMinBids
      winRateScales := table "win_rate_scales" self.winRateScales
      winRateThresholds := table "win_rate_thresholds" self.winRateThresholds }
    -- the step functions come last, and the first bad one ends the call
    let (code, pvStepFunction) := function "pv_step_function" self.pvStepFunction
    let self := { self with pvStepFunction := pvStepFunction }
    if code < 0 then (code, self)
    else
      let (code, uvStepFunction) := function "uv_step_function" self.uvStepFunction
      let self := { self with uvStepFunction := uvStepFunction }
      if code < 0 then (code, self)
      else
        let (code, winRateStepFunction) := function "win_rate_step_function" self.winRateStepFunction
        let self := { self with winRateStepFunction := winRateStepFunction }
        if code < 0 then (code, self) else (0, self)

/-- `Load` clears the object first, so its outcome depends on the file alone. -/
theorem load_eq_load_empty (self : Param R) (file : Option Str) :
    self.load lib file = empty.load lib file := rfl

end Load

end Param

end FlowRetrieval
