import Mathlib.Algebra.Order.Ring.Abs
import RoostCore.Go.Table
import RoostCore.Go.Time
import RoostCore.Go.Writer

/-! The static partition of a cell world (`spatial/geometry.go`, `cellworld/grid.go`) and the
validation of a node on it (`cellworld/node.go`). An entity is owned by one cell and may stray
over its border by the hysteresis before it is handed over; the owner mirrors it to the cells
around whose rectangle, expanded by the ghost band, holds it. What is within the view radius
across a border has to be among those mirrored. Coordinates are `int64` and wrap as Go's do. -/
namespace Roost.Spatial

structure Point where
  x : Int64
  y : Int64

/-- Half open: `min` is in, `max` is not. -/
structure Rect where
  min : Point := ⟨0, 0⟩
  max : Point := ⟨0, 0⟩

def saturatingAdd (a b : Int64) : Int64 :=
  let sum := a + b
  if 0 < b ∧ sum < a then Int64.maxValue
  else if b < 0 ∧ a < sum then Int64.minValue
  else sum

def saturatingSub (a b : Int64) : Int64 :=
  if b = Int64.minValue then saturatingAdd (saturatingAdd a Int64.maxValue) 1
  else saturatingAdd a (-b)

def normalizeRect (r : Rect) : Rect :=
  let r := if r.max.x < r.min.x then
    { min := { r.min with x := r.max.x }, max := { r.max with x := r.min.x } } else r
  if r.max.y < r.min.y then
    { min := { r.min with y := r.max.y }, max := { r.max with y := r.min.y } } else r

def Rect.contains (r : Rect) (p : Point) : Prop :=
  (normalizeRect r).min.x ≤ p.x ∧ p.x < (normalizeRect r).max.x ∧
    (normalizeRect r).min.y ≤ p.y ∧ p.y < (normalizeRect r).max.y
  deriving Decidable

/-- The square of the Euclidean distance, exact. -/
def distanceSquared (p q : Point) : Int :=
  (p.x.toInt - q.x.toInt) ^ 2 + (p.y.toInt - q.y.toInt) ^ 2

theorem normalizeRect_ordered {r : Rect} (wide : r.min.x.toInt ≤ r.max.x.toInt)
    (high : r.min.y.toInt ≤ r.max.y.toInt) : normalizeRect r = r := by
  have apart : ¬ r.max.x < r.min.x := by rwa [Int64.lt_iff_toInt_lt, Int.not_lt]
  have above : ¬ r.max.y < r.min.y := by rwa [Int64.lt_iff_toInt_lt, Int.not_lt]
  simp only [normalizeRect, if_neg apart, if_neg above]

theorem bmod_exact {n : Int} (low : -2 ^ 63 ≤ n) (high : n < 2 ^ 63) : n.bmod (2 ^ 64) = n :=
  Int.bmod_eq_of_le (by omega) (by omega)

theorem toInt_saturatingAdd (a b : Int64) : (saturatingAdd a b).toInt =
    max (-2 ^ 63) (min (2 ^ 63 - 1) (a.toInt + b.toInt)) := by
  have sum := Int64.toInt_add a b
  have := a.toInt_lt
  have := a.le_toInt
  have := b.toInt_lt
  have := b.le_toInt
  have zero : (0 : Int64).toInt = 0 := rfl
  have most : Int64.maxValue.toInt = 2 ^ 63 - 1 := rfl
  have least : Int64.minValue.toInt = -2 ^ 63 := rfl
  have wraps : (a + b).toInt = a.toInt + b.toInt ∨ (a + b).toInt = a.toInt + b.toInt - 2 ^ 64 ∨
      (a + b).toInt = a.toInt + b.toInt + 2 ^ 64 := by
    rw [sum, Int.bmod_def]
    split <;> omega
  have := (a + b).toInt_lt
  have := (a + b).le_toInt
  simp only [saturatingAdd, Int64.lt_iff_toInt_lt]
  split
  · omega
  · split <;> omega

theorem toInt_saturatingSub {a b : Int64} (nonneg : 0 ≤ b.toInt) :
    (saturatingSub a b).toInt = max (-2 ^ 63) (a.toInt - b.toInt) := by
  have := a.toInt_lt
  have := b.toInt_lt
  have distinct : b ≠ Int64.minValue := by
    rintro rfl
    revert nonneg
    decide
  have negated : (-b).toInt = -b.toInt := by rw [Int64.toInt_neg, bmod_exact] <;> omega
  rw [saturatingSub, if_neg distinct, toInt_saturatingAdd, negated]
  omega

end Roost.Spatial

namespace Roost.Cellworld

open Roost.Go Roost.Spatial

structure CellId where
  col : Int32
  row : Int32
deriving DecidableEq

structure GridConfig where
  origin : Point
  cellSize : Int64
  cols : Int32
  rows : Int32
  ghostBand : Int64
  hysteresis : Int64
  owners : Table CellId Int32

structure Grid where
  origin : Point
  size : Int64
  cols : Int32
  rows : Int32
  band : Int64
  hysteresis : Int64
  owners : Table CellId Int32 := ∅
  cellOf : Table Int32 CellId := ∅
  bounds : Rect

/-- What `ErrGridConfig` is raised for. -/
inductive GridFault
  | notPositive | ghostBand | hysteresis | tooLarge
  | unowned (id : CellId)
  | shared (sid : Int32) (other id : CellId)
  | outside

/-- The cells in the order of the two loops of `NewGrid`. -/
def GridConfig.cells (cfg : GridConfig) : List CellId :=
  (List.range cfg.cols.toInt.toNat).flatMap fun col =>
    (List.range cfg.rows.toInt.toNat).map fun row => ⟨Int32.ofNat col, Int32.ofNat row⟩

def Grid.own (cfg : GridConfig) (g : Grid) (id : CellId) : Except GridFault Grid := do
  let sid := (cfg.owners.get id).getD 0
  refuse (sid = 0) (.unowned id)
  match g.cellOf.get sid with
  | some other => throw (.shared sid other id)
  | none => return { g with owners := g.owners.set id sid, cellOf := g.cellOf.set sid id }

def newGrid (cfg : GridConfig) : Except GridFault Grid := do
  refuse (cfg.cellSize ≤ 0 ∨ cfg.cols ≤ 0 ∨ cfg.rows ≤ 0) .notPositive
  refuse (cfg.ghostBand ≤ 0 ∨ cfg.cellSize ≤ cfg.ghostBand) .ghostBand
  refuse (cfg.hysteresis < 0 ∨ cfg.ghostBand ≤ cfg.hysteresis) .hysteresis
  refuse (Int64.maxValue / 4 / cfg.cellSize < cfg.cols.toInt64 ∨
    Int64.maxValue / 4 / cfg.cellSize < cfg.rows.toInt64) .tooLarge
  let g ← cfg.cells.foldlM (Grid.own cfg)
    { origin := cfg.origin, size := cfg.cellSize, cols := cfg.cols, rows := cfg.rows,
      band := cfg.ghostBand, hysteresis := cfg.hysteresis,
      bounds := { min := cfg.origin,
                  max := ⟨saturatingAdd cfg.origin.x (cfg.cols.toInt64 * cfg.cellSize),
                          saturatingAdd cfg.origin.y (cfg.rows.toInt64 * cfg.cellSize)⟩ } }
  refuse (cfg.owners.keys.length ≠ g.owners.keys.length) .outside
  return g

def expand (r : Rect) (margin : Int64) : Rect where
  min := ⟨saturatingSub r.min.x margin, saturatingSub r.min.y margin⟩
  max := ⟨saturatingAdd r.max.x margin, saturatingAdd r.max.y margin⟩

namespace Grid

def contains (g : Grid) (id : CellId) : Prop :=
  0 ≤ id.col ∧ id.col < g.cols ∧ 0 ≤ id.row ∧ id.row < g.rows
  deriving Decidable

def rect (g : Grid) (id : CellId) : Rect :=
  if g.contains id then
    let minX := g.origin.x + id.col.toInt64 * g.size
    let minY := g.origin.y + id.row.toInt64 * g.size
    { min := ⟨minX, minY⟩, max := ⟨minX + g.size, minY + g.size⟩ }
  else {}

/-- Whether `p` is in the rectangle of the cell, expanded by the ghost band. -/
def inBand (g : Grid) (id : CellId) (p : Point) : Prop :=
  g.contains id ∧ (expand (g.rect id) g.band).contains p
  deriving Decidable

/-- The cells of the eight around `owner` that have to mirror what it owns at `p`, appended. -/
def ghostTargets (g : Grid) (owner : CellId) (p : Point) (dst : List CellId) : List CellId :=
  dst ++ [-1, 0, 1].flatMap fun dr => [-1, 0, 1].filterMap fun dc =>
    let id : CellId := ⟨owner.col + dc, owner.row + dr⟩
    if ¬ (dr = 0 ∧ dc = 0) ∧ g.inBand id p then some id else none

end Grid

/-- `NodeConfig` after its defaults. Functions, services and views are there or not. -/
structure NodeConfig where
  world : String
  sid : Int32
  grid : Option Grid
  transport : Bool := true
  nest : Bool := true
  destroy : Bool := true
  cell : Option CellId := none
  scene : Int64 := 0
  createActor : Bool := true
  period : Duration := 50 * millisecond
  viewRadius : Int64 := 0
  attackRange : Int64
  indexBlock : Int64
  maxViewEntities : Int := 256
  maxReals : Int := 50000
  maxSpeed : Int64 := 2000
  ghostChunk : Int := 256
  offerRetry : Duration := 100 * millisecond
  handoffAbort : Duration := 3 * second
  rejectBackoff : Duration := 500 * millisecond
  ghostTtl : Duration := second
  seenTtl : Duration := 30 * second
  attackRetry : Duration := 100 * millisecond
  attackDeadline : Duration := 2 * second
  dedupWindow : Duration := 10 * second
  maxAppliedHits : Int := 128
  leaseTimeout : Duration := 3 * second
  idlePeriod : Duration := 0
  wakeRadius : Int64
  idleAfter : Duration := 2 * second
  playerEntity : Bool := false
  watchPeriod : Duration := 100 * millisecond
  silenceTimeout : Duration := second
  lostGrace : Duration := 500 * millisecond
  leasePeriod : Duration := 500 * millisecond
  panelDeadline : Duration := 2 * second
  mirrors : Bool := false
  interest : Bool := false
  session : Bool := false
  mirrorKind : Bool := false
  groupView : Bool := false
  groupEvery : Duration := second
  groupHold : Duration := 3 * second
  groupResyncEvery : Duration := 10 * second
  outboxSize : Int := 65536
  reportBatch : Int := 512

/-- What `ErrNodeConfig` is raised for, case by case. -/
inductive NodeFault
  | world | required | hostsNothing | queueSize
  | cell | scene | period | viewRadius | attackRange | size | handoffAbort | seenTtl
  | attackDeadline | dedupWindow | ghostTtl | leaseTimeout | idlePeriod | wakeRadius | idleAfter
  | cellSid | watchPeriod | silenceTimeout | panelDeadline | mirrors | groupMirrors | groupEvery

/-- The periods a heartbeat can have (`heartbeat.Periods`). -/
def periods : List Duration :=
  [50, 100, 200, 500, 1000, 2000, 5000, 10000, 30000, 60000].map (· * millisecond)

def validWorld (world : String) : Bool :=
  world ≠ "" && world.utf8ByteSize ≤ 64 && world.toList.all fun r =>
    'a' ≤ r && r ≤ 'z' || 'A' ≤ r && r ≤ 'Z' || '0' ≤ r && r ≤ '9' || r = '-' || r = '_'

namespace NodeConfig

/-- The checks of a node that hosts a cell. -/
def validateCell (cfg : NodeConfig) (g : Grid) (cell : CellId) : Except NodeFault Unit := do
  refuse (¬ g.contains cell ∨ (g.owners.get cell).getD 0 ≠ cfg.sid) .cell
  refuse (cfg.scene = 0 ∨ ¬ cfg.createActor) .scene
  refuse (cfg.period ∉ periods) .period
  refuse (cfg.viewRadius ≤ 0 ∨ g.band < cfg.viewRadius + g.hysteresis) .viewRadius
  refuse (cfg.attackRange < 0 ∨ cfg.viewRadius < cfg.attackRange) .attackRange
  refuse (cfg.indexBlock ≤ 0 ∨ cfg.maxViewEntities < 0 ∨ cfg.maxReals < 0 ∨ cfg.maxSpeed < 0 ∨
    cfg.ghostChunk ≤ 0 ∨ cfg.maxAppliedHits < 0) .size
  refuse (cfg.offerRetry ≤ 0 ∨ cfg.handoffAbort ≤ cfg.offerRetry) .handoffAbort
  refuse (cfg.seenTtl ≤ cfg.handoffAbort) .seenTtl
  refuse (cfg.attackRetry ≤ 0 ∨ cfg.attackDeadline ≤ cfg.attackRetry) .attackDeadline
  refuse (cfg.dedupWindow ≤ cfg.attackDeadline) .dedupWindow
  refuse (cfg.ghostTtl ≤ cfg.period ∨ cfg.rejectBackoff ≤ 0) .ghostTtl
  refuse (cfg.leaseTimeout ≤ cfg.leasePeriod) .leaseTimeout
  refuse (cfg.idlePeriod ≠ 0 ∧ (cfg.idlePeriod ∉ periods ∨ cfg.idlePeriod ≤ cfg.period ∨
    cfg.idlePeriod.tmod cfg.period ≠ 0)) .idlePeriod
  refuse (cfg.wakeRadius < cfg.viewRadius ∨ g.band < cfg.wakeRadius + g.hysteresis) .wakeRadius
  refuse (cfg.idleAfter ≤ 0) .idleAfter

/-- The checks of a node that hosts players. -/
def validateBase (cfg : NodeConfig) (g : Grid) : Except NodeFault Unit := do
  refuse ((g.cellOf.get cfg.sid).isSome ∧ cfg.cell.isNone) .cellSid
  refuse (cfg.watchPeriod ∉ periods) .watchPeriod
  refuse (cfg.silenceTimeout ≤ cfg.watchPeriod ∨ cfg.lostGrace ≤ 0 ∨ cfg.leasePeriod ≤ 0)
    .silenceTimeout
  refuse (cfg.panelDeadline ≤ cfg.leasePeriod) .panelDeadline
  refuse (cfg.mirrors ∧ ¬ (cfg.interest ∧ cfg.session ∧ cfg.mirrorKind)) .mirrors
  refuse (cfg.groupView ∧ ¬ cfg.mirrors) .groupMirrors
  refuse (cfg.groupView ∧ (cfg.groupEvery < cfg.watchPeriod ∨ cfg.groupHold ≤ cfg.groupEvery ∨
    cfg.groupResyncEvery ≤ cfg.groupEvery)) .groupEvery

def validate (cfg : NodeConfig) : Except NodeFault Unit := do
  refuse (¬ validWorld cfg.world) .world
  let some g := cfg.grid | throw .required
  refuse (cfg.sid = 0 ∨ ¬ (cfg.transport ∧ cfg.nest ∧ cfg.destroy)) .required
  refuse (cfg.cell.isNone ∧ ¬ cfg.playerEntity) .hostsNothing
  refuse (cfg.outboxSize < 0 ∨ cfg.reportBatch < 0) .queueSize
  if let some cell := cfg.cell then cfg.validateCell g cell
  if cfg.playerEntity then cfg.validateBase g

end NodeConfig

/-- What an accepted configuration says about its numbers. -/
structure Grid.Laid (g : Grid) : Prop where
  hysteresis : 0 ≤ g.hysteresis.toInt
  band : g.hysteresis.toInt < g.band.toInt
  size : g.band.toInt < g.size.toInt
  wide : g.cols.toInt * g.size.toInt < 2 ^ 63
  high : g.rows.toInt * g.size.toInt < 2 ^ 63
  cols : 0 < g.cols.toInt
  rows : 0 < g.rows.toInt
  bounds : g.bounds = {
    min := g.origin
    max := ⟨saturatingAdd g.origin.x (g.cols.toInt64 * g.size),
            saturatingAdd g.origin.y (g.rows.toInt64 * g.size)⟩ }

theorem span_lt {count size : Int64} (positive : 0 < size.toInt)
    (small : ¬ Int64.maxValue / 4 / size < count) : count.toInt * size.toInt < 2 ^ 63 := by
  have quarter : (Int64.maxValue / 4).toInt = 2 ^ 61 - 1 := rfl
  have lower : 0 ≤ (2 ^ 61 - 1 : Int) / size.toInt := Int.ediv_nonneg (by omega) (by omega)
  have upper : (2 ^ 61 - 1 : Int) / size.toInt ≤ 2 ^ 61 - 1 := Int.ediv_le_self _ (by omega)
  rw [Int64.lt_iff_toInt_lt, Int64.toInt_div, quarter, Int.tdiv_eq_ediv_of_nonneg (by omega),
    bmod_exact (by omega) (by omega), Int.not_lt] at small
  have scaled := Int.mul_le_mul_of_nonneg_right small (by omega : 0 ≤ size.toInt)
  have exact := Int.ediv_mul_le (2 ^ 61 - 1) (by omega : size.toInt ≠ 0)
  omega

theorem own_kept {cells : List CellId} (owned : cells.foldlM (Grid.own cfg) g = .ok d) :
    d = { g with owners := d.owners, cellOf := d.cellOf } := by
  induction cells generalizing g with
  | nil => cases owned; rfl
  | cons id cells ih =>
    rw [List.foldlM_cons] at owned
    obtain ⟨middle, first, rest⟩ := bind_ok owned
    rw [ih rest]
    obtain ⟨-, first⟩ := refuse_bind_ok first
    split at first <;> cases first
    rfl

theorem newGrid_laid (built : newGrid cfg = .ok g) : g.Laid := by
  obtain ⟨positive, built⟩ := refuse_bind_ok built
  obtain ⟨banded, built⟩ := refuse_bind_ok built
  obtain ⟨behind, built⟩ := refuse_bind_ok built
  obtain ⟨small, built⟩ := refuse_bind_ok built
  obtain ⟨d, owned, built⟩ := bind_ok built
  obtain ⟨-, built⟩ := refuse_bind_ok built
  cases built
  have zero : (0 : Int64).toInt = 0 := rfl
  have none : (0 : Int32).toInt = 0 := rfl
  simp only [Int64.le_iff_toInt_le, Int64.lt_iff_toInt_lt, Int32.le_iff_toInt_le, zero, none]
    at positive banded behind
  rw [own_kept owned]
  have size : 0 < cfg.cellSize.toInt := by omega
  have wide := span_lt size fun past => small (.inl past)
  have high := span_lt size fun past => small (.inr past)
  rw [Int32.toInt_toInt64] at wide high
  refine ⟨?_, ?_, ?_, wide, high, ?_, ?_, rfl⟩ <;> dsimp only <;> omega

/-- The radius a node that hosts a cell may see, computed as Go does. -/
theorem validate_radius {cfg : NodeConfig} (valid : cfg.validate = .ok ()) (on : cfg.grid = some g)
    (hosts : cfg.cell = some cell) :
    0 < cfg.viewRadius ∧ cfg.viewRadius + g.hysteresis ≤ g.band := by
  obtain ⟨-, valid⟩ := refuse_bind_ok valid
  simp only [on, hosts] at valid
  obtain ⟨-, valid⟩ := refuse_bind_ok valid
  obtain ⟨-, valid⟩ := refuse_bind_ok valid
  obtain ⟨-, valid⟩ := refuse_bind_ok valid
  obtain ⟨⟨⟩, valid, -⟩ := bind_ok valid
  obtain ⟨-, valid⟩ := refuse_bind_ok valid
  obtain ⟨-, valid⟩ := refuse_bind_ok valid
  obtain ⟨-, valid⟩ := refuse_bind_ok valid
  have radius := (refuse_bind_ok valid).1
  simpa only [not_or, Int64.not_le, Int64.not_lt] using radius

/-- `x` lies over the side `index` of a row of cells, or within `margin` of it. -/
def Beside (origin size margin : Int64) (index : Int32) (x : Int64) : Prop :=
  origin.toInt + index.toInt * size.toInt - margin.toInt ≤ x.toInt ∧
    x.toInt < origin.toInt + index.toInt * size.toInt + size.toInt + margin.toInt

/-- Owners of two positions within `radius` are neighbours, also when there are two cells at
most, and each of the positions is within the ghost band of the other's owner. -/
theorem Beside.near {radius : Int} {count : Int32} (at_ : Beside origin size margin a x)
    (other : Beside origin size margin b y)
    (room : radius + 2 * margin.toInt ≤ size.toInt ∨ count.toInt ≤ 2)
    (first : 0 ≤ a ∧ a < count) (second : 0 ≤ b ∧ b < count)
    (seen : radius + margin.toInt ≤ band.toInt) (below : x.toInt - y.toInt ≤ radius)
    (above : y.toInt - x.toInt ≤ radius) (positive : 0 ≤ size.toInt) :
    b.toInt - a.toInt ≤ 1 ∧ a.toInt - b.toInt ≤ 1 ∧ Beside origin size band b x := by
  obtain ⟨low, high⟩ := at_
  obtain ⟨low', high'⟩ := other
  have zero : (0 : Int32).toInt = 0 := rfl
  rw [Int32.le_iff_toInt_le, Int32.lt_iff_toInt_lt, zero] at first second
  refine ⟨?_, ?_, by omega, by omega⟩
  -- two sides apart there is a whole cell between them, less what either may stray
  · by_contra far
    have := Int.mul_le_mul_of_nonneg_right (by omega : a.toInt + 2 ≤ b.toInt) positive
    rw [Int.add_mul] at this
    omega
  · by_contra far
    have := Int.mul_le_mul_of_nonneg_right (by omega : b.toInt + 2 ≤ a.toInt) positive
    rw [Int.add_mul] at this
    omega

/-- Two cells of a row that see each other's positions, one of them at a place that the ghosts
of the other do not reach: the view is wider than a cell, or both stray over a cell between. -/
theorem exists_stray {origin size margin band : Int64} {count : Int32} {radius : Int}
    (margins : 0 ≤ margin.toInt ∧ margin.toInt < band.toInt ∧ band.toInt < size.toInt)
    (span : count.toInt * size.toInt < 2 ^ 63) (positive : 0 ≤ radius)
    (fits : origin.toInt + count.toInt * size.toInt < 2 ^ 63)
    (far : 2 ≤ count.toInt ∧ 2 ^ 63 ≤ radius + margin.toInt ∨
      3 ≤ count.toInt ∧ size.toInt < radius + 2 * margin.toInt) :
    ∃ (j : Int32) (x y : Int64), 0 < j.toInt ∧ j.toInt < count.toInt ∧
      (x.toInt - y.toInt) ^ 2 ≤ radius ^ 2 ∧
      Beside origin size margin 0 x ∧ Beside origin size margin j y ∧
      (origin.toInt ≤ x.toInt ∧ x.toInt < origin.toInt + count.toInt * size.toInt) ∧
      (origin.toInt ≤ y.toInt ∧ y.toInt < origin.toInt + count.toInt * size.toInt) ∧
      (Beside origin size band j x → 1 < j.toInt) := by
  have least := origin.le_toInt
  have placed (n : Int) (low : 0 ≤ n) (high : n < count.toInt * size.toInt) :
      ∃ x : Int64, x.toInt = origin.toInt + n :=
    ⟨.ofInt (origin.toInt + n), (Int64.toInt_ofInt ..).trans (bmod_exact (by omega) (by omega))⟩
  have zero : (0 : Int32).toInt = 0 := rfl
  rcases far with ⟨some, wide⟩ | ⟨some, wide⟩
  · have cells := Int.mul_le_mul_of_nonneg_right some (by omega : 0 ≤ size.toInt)
    have one : (1 : Int32).toInt = 1 := rfl
    obtain ⟨x, atX⟩ := placed 0 (by omega) (by omega)
    obtain ⟨y, atY⟩ := placed size.toInt (by omega) (by omega)
    refine ⟨1, x, y, ?_, ?_, sq_le_sq' ?_ ?_, ?_, ?_, ?_, ?_, ?_⟩ <;>
      simp only [Beside, atX, atY, zero, one] <;> omega
  · have cells := Int.mul_le_mul_of_nonneg_right some (by omega : 0 ≤ size.toInt)
    have two : (2 : Int32).toInt = 2 := rfl
    obtain ⟨x, atX⟩ := placed (size.toInt + margin.toInt - 1) (by omega) (by omega)
    obtain ⟨y, atY⟩ := placed (max (size.toInt + margin.toInt - 1) (2 * size.toInt - margin.toInt))
      (by omega) (by omega)
    refine ⟨2, x, y, ?_, ?_, sq_le_sq' ?_ ?_, ?_, ?_, ?_, ?_, ?_⟩ <;>
      simp only [Beside, atX, atY, zero, two] <;> omega

/-- The sides of a cell, along one axis, when the world does not reach the end of `int64`. -/
theorem toInt_side {origin size : Int64} {index count : Int32} (low : 0 ≤ index)
    (below : index < count) (positive : 0 ≤ size.toInt)
    (span : count.toInt * size.toInt < 2 ^ 63)
    (fits : origin.toInt + count.toInt * size.toInt < 2 ^ 63) :
    (origin + index.toInt64 * size).toInt = origin.toInt + index.toInt * size.toInt ∧
      (origin + index.toInt64 * size + size).toInt =
        origin.toInt + index.toInt * size.toInt + size.toInt := by
  rw [Int32.le_iff_toInt_le] at low
  rw [Int32.lt_iff_toInt_lt] at below
  have least := origin.le_toInt
  have start : 0 ≤ index.toInt * size.toInt := Int.mul_nonneg low positive
  have stop := Int.mul_le_mul_of_nonneg_right (by omega : index.toInt + 1 ≤ count.toInt) positive
  rw [Int.add_mul] at stop
  have scaled : (index.toInt64 * size).toInt = index.toInt * size.toInt := by
    rw [Int64.toInt_mul, Int32.toInt_toInt64, bmod_exact] <;> omega
  have first : (origin + index.toInt64 * size).toInt =
      origin.toInt + index.toInt * size.toInt := by
    rw [Int64.toInt_add, scaled, bmod_exact] <;> omega
  refine ⟨first, ?_⟩
  rw [Int64.toInt_add, first, bmod_exact] <;> omega

theorem expand_contains {r : Rect} (wide : r.min.x.toInt ≤ r.max.x.toInt)
    (high : r.min.y.toInt ≤ r.max.y.toInt) (nonneg : 0 ≤ margin.toInt)
    (world : Rect.contains bounds p) :
    (expand r margin).contains p ↔
      (r.min.x.toInt - margin.toInt ≤ p.x.toInt ∧ p.x.toInt < r.max.x.toInt + margin.toInt) ∧
      (r.min.y.toInt - margin.toInt ≤ p.y.toInt ∧ p.y.toInt < r.max.y.toInt + margin.toInt) := by
  obtain ⟨-, left, -, under⟩ := world
  rw [Int64.lt_iff_toInt_lt] at left under
  have := (normalizeRect bounds).max.x.toInt_lt
  have := (normalizeRect bounds).max.y.toInt_lt
  have := p.x.le_toInt
  have := p.y.le_toInt
  have := r.min.x.toInt_lt
  have := r.min.y.toInt_lt
  have := r.max.x.le_toInt
  have := r.max.y.le_toInt
  have kept : normalizeRect (expand r margin) = expand r margin := by
    apply normalizeRect_ordered <;>
    · simp only [expand, toInt_saturatingAdd, toInt_saturatingSub nonneg]
      omega
  rw [Rect.contains, kept]
  simp only [expand, Int64.le_iff_toInt_le, Int64.lt_iff_toInt_lt, toInt_saturatingAdd,
    toInt_saturatingSub nonneg]
  omega

/-- The far corner of the world is an `int64` point: no rectangle of the grid wraps. -/
def Grid.Fits (g : Grid) : Prop :=
  g.origin.x.toInt + g.cols.toInt * g.size.toInt < 2 ^ 63 ∧
    g.origin.y.toInt + g.rows.toInt * g.size.toInt < 2 ^ 63

theorem contains_rect {g : Grid} {cell : CellId} (laid : g.Laid) (fits : g.Fits)
    (held : g.contains cell) (nonneg : 0 ≤ margin.toInt) (world : g.bounds.contains p) :
    (expand (g.rect cell) margin).contains p ↔
      Beside g.origin.x g.size margin cell.col p.x ∧
      Beside g.origin.y g.size margin cell.row p.y := by
  have size := le_of_lt (laid.hysteresis.trans_lt (laid.band.trans laid.size))
  obtain ⟨left, right⟩ := toInt_side held.1 held.2.1 size laid.wide fits.1
  obtain ⟨bottom, top⟩ := toInt_side held.2.2.1 held.2.2.2 size laid.high fits.2
  rw [Grid.rect, if_pos held,
    expand_contains (by dsimp only; omega) (by dsimp only; omega) nonneg world]
  simp only [Beside, left, right, bottom, top]

theorem offset_mem {a b : Int32} (below : b.toInt - a.toInt ≤ 1) (above : a.toInt - b.toInt ≤ 1) :
    ∃ d ∈ [(-1 : Int32), 0, 1], b = a + d := by
  refine ⟨b - a, ?_, by rw [Int32.add_comm, Int32.sub_add_cancel]⟩
  have exact : (b - a).toInt = b.toInt - a.toInt := by
    rw [Int32.toInt_sub]
    exact Int.bmod_eq_of_le (by omega) (by omega)
  have cases : (b - a).toInt = (-1 : Int32).toInt ∨ (b - a).toInt = (0 : Int32).toInt ∨
      (b - a).toInt = (1 : Int32).toInt := by
    have : (-1 : Int32).toInt = -1 := rfl
    have : (0 : Int32).toInt = 0 := rfl
    have : (1 : Int32).toInt = 1 := rfl
    omega
  simpa only [Int32.toInt_inj, List.mem_cons, List.not_mem_nil, or_false] using cases

theorem mem_ghostTargets {g : Grid} {a b : CellId} (distinct : a ≠ b) (band : g.inBand b p)
    (cols : b.col.toInt - a.col.toInt ≤ 1 ∧ a.col.toInt - b.col.toInt ≤ 1)
    (rows : b.row.toInt - a.row.toInt ≤ 1 ∧ a.row.toInt - b.row.toInt ≤ 1)
    (dst : List CellId) : b ∈ g.ghostTargets a p dst := by
  obtain ⟨dc, column, right⟩ := offset_mem cols.1 cols.2
  obtain ⟨dr, line, up⟩ := offset_mem rows.1 rows.2
  have id : (⟨a.col + dc, a.row + dr⟩ : CellId) = b := by rw [← right, ← up]
  refine List.mem_append_right _ (List.mem_flatMap.mpr ⟨dr, line, ?_⟩)
  refine List.mem_filterMap.mpr ⟨dc, column, ?_⟩
  have moved : ¬ (dr = 0 ∧ dc = 0) := by
    rintro ⟨rfl, rfl⟩
    exact distinct (by rw [← id, Int32.add_zero, Int32.add_zero])
  rw [id, if_pos ⟨moved, band⟩]

theorem ghostTargets_corner {g : Grid} (target : b ∈ g.ghostTargets ⟨0, 0⟩ p []) :
    b.col.toInt ≤ 1 ∧ b.row.toInt ≤ 1 ∧ g.inBand b p := by
  have small (d : Int32) (member : d ∈ [(-1 : Int32), 0, 1]) : (0 + d).toInt ≤ 1 := by
    obtain rfl | rfl | rfl : d = -1 ∨ d = 0 ∨ d = 1 := by simpa using member
    all_goals decide
  rw [Grid.ghostTargets, List.nil_append] at target
  obtain ⟨dr, line, target⟩ := List.mem_flatMap.mp target
  obtain ⟨dc, column, found⟩ := List.mem_filterMap.mp target
  obtain ⟨⟨-, band⟩, same⟩ := Option.ite_none_right_eq_some.mp found
  cases same
  exact ⟨small dc column, small dr line, band⟩

/-- Whoever is within `radius` of what another cell owns, be it as far as the hysteresis out of
the own cell, has a ghost there. -/
def Grid.Mirrors (g : Grid) (radius : Int) : Prop :=
  ∀ a b p q, g.contains a → g.contains b → a ≠ b → g.bounds.contains p → g.bounds.contains q →
    (expand (g.rect a) g.hysteresis).contains p → (expand (g.rect b) g.hysteresis).contains q →
    distanceSquared p q ≤ radius ^ 2 →
    ∀ dst, b ∈ g.ghostTargets a p dst ∧ a ∈ g.ghostTargets b q dst

section
variable {g : Grid} {radius : Int} (laid : g.Laid) (fits : g.Fits)
include laid fits

/-- One direction: the owner of `q` mirrors what is near it. -/
theorem mirrors_near (room : radius + 2 * g.hysteresis.toInt ≤ g.size.toInt ∨
      g.cols.toInt ≤ 2 ∧ g.rows.toInt ≤ 2)
    (seen : radius + g.hysteresis.toInt ≤ g.band.toInt) (heldA : g.contains a)
    (heldB : g.contains b) (worldP : g.bounds.contains p) (worldQ : g.bounds.contains q)
    (inA : (expand (g.rect a) g.hysteresis).contains p)
    (inB : (expand (g.rect b) g.hysteresis).contains q) (distinct : a ≠ b) (nonneg : 0 ≤ radius)
    (close : distanceSquared p q ≤ radius ^ 2) (dst : List CellId) :
    b ∈ g.ghostTargets a p dst := by
  have hysteresis := laid.hysteresis
  have band := laid.band
  have size := laid.size
  rw [contains_rect laid fits heldA hysteresis worldP] at inA
  rw [contains_rect laid fits heldB hysteresis worldQ] at inB
  have across := abs_le_of_sq_le_sq' (le_trans (le_add_of_nonneg_right (sq_nonneg _)) close) nonneg
  have along := abs_le_of_sq_le_sq' (le_trans (le_add_of_nonneg_left (sq_nonneg _)) close) nonneg
  obtain ⟨right, left, x⟩ := inA.1.near inB.1 (room.imp_right And.left) ⟨heldA.1, heldA.2.1⟩
    ⟨heldB.1, heldB.2.1⟩ seen (by omega) (by omega) (by omega)
  obtain ⟨above, below, y⟩ := inA.2.near inB.2 (room.imp_right And.right) heldA.2.2 heldB.2.2
    seen (by omega) (by omega) (by omega)
  refine mem_ghostTargets distinct ⟨heldB, ?_⟩ ⟨right, left⟩ ⟨above, below⟩ dst
  exact (contains_rect laid fits heldB (by omega) worldP).mpr ⟨x, y⟩

theorem contains_bounds
    (across : g.origin.x.toInt ≤ p.x.toInt ∧ p.x.toInt < g.origin.x.toInt + g.cols.toInt * g.size.toInt)
    (along : g.origin.y.toInt ≤ p.y.toInt ∧ p.y.toInt < g.origin.y.toInt + g.rows.toInt * g.size.toInt) :
    g.bounds.contains p := by
  have size := laid.hysteresis.trans_lt (laid.band.trans laid.size)
  have side {origin : Int64} {count : Int32} (some : 0 < count.toInt)
      (span : count.toInt * g.size.toInt < 2 ^ 63)
      (fits : origin.toInt + count.toInt * g.size.toInt < 2 ^ 63) :
      (saturatingAdd origin (count.toInt64 * g.size)).toInt =
        origin.toInt + count.toInt * g.size.toInt := by
    have := Int.mul_pos some size
    have := origin.le_toInt
    rw [toInt_saturatingAdd, Int64.toInt_mul, Int32.toInt_toInt64, bmod_exact] <;> omega
  have right := side laid.cols laid.wide fits.1
  have top := side laid.rows laid.high fits.2
  rw [laid.bounds, Rect.contains, normalizeRect_ordered] <;>
    simp only [Int64.le_iff_toInt_le, Int64.lt_iff_toInt_lt, right, top] <;> omega

/-- The owner of the first cell mirrors to another one only within the band and next to it. -/
theorem Grid.Mirrors.corner {b : CellId} {p q : Point} (mirrors : g.Mirrors radius)
    (held : g.contains b) (distinct : ⟨0, 0⟩ ≠ b)
    (worldP : g.bounds.contains p) (worldQ : g.bounds.contains q)
    (inA : Beside g.origin.x g.size g.hysteresis 0 p.x ∧ Beside g.origin.y g.size g.hysteresis 0 p.y)
    (inB : Beside g.origin.x g.size g.hysteresis b.col q.x ∧
      Beside g.origin.y g.size g.hysteresis b.row q.y)
    (close : distanceSquared p q ≤ radius ^ 2) :
    b.col.toInt ≤ 1 ∧ b.row.toInt ≤ 1 ∧
      Beside g.origin.x g.size g.band b.col p.x ∧ Beside g.origin.y g.size g.band b.row p.y := by
  have first : g.contains ⟨0, 0⟩ := by
    refine ⟨Int32.le_refl _, ?_, Int32.le_refl _, ?_⟩ <;> rw [Int32.lt_iff_toInt_lt]
    · exact laid.cols
    · exact laid.rows
  have target := (mirrors ⟨0, 0⟩ b p q first held distinct worldP worldQ
    ((contains_rect laid fits first laid.hysteresis worldP).mpr inA)
    ((contains_rect laid fits held laid.hysteresis worldQ).mpr inB) close []).1
  obtain ⟨col, row, -, band⟩ := ghostTargets_corner target
  have wide := laid.hysteresis.trans (le_of_lt laid.band)
  exact ⟨col, row, (contains_rect laid fits held wide worldP).mp band⟩

theorem Grid.Mirrors.room (mirrors : g.Mirrors radius) (nonneg : 0 ≤ radius)
    (seen : radius + g.hysteresis.toInt ≤ g.band.toInt ∨ 2 ^ 63 ≤ radius + g.hysteresis.toInt) :
    g.cols.toInt = 1 ∧ g.rows.toInt = 1 ∨ radius + g.hysteresis.toInt ≤ g.band.toInt ∧
      (radius + 2 * g.hysteresis.toInt ≤ g.size.toInt ∨ g.cols.toInt ≤ 2 ∧ g.rows.toInt ≤ 2) := by
  have margins := And.intro laid.hysteresis (And.intro laid.band laid.size)
  have cols := laid.cols
  have rows := laid.rows
  have size : 0 < g.size.toInt := by omega
  have wide := Int.mul_pos cols size
  have high := Int.mul_pos rows size
  have zero : (0 : Int32).toInt = 0 := rfl
  have here {origin : Int64} : Beside origin g.size g.hysteresis 0 origin := by
    simp only [Beside, zero]
    omega
  by_contra cramped
  by_cases across : 2 ≤ g.cols.toInt ∧ 2 ^ 63 ≤ radius + g.hysteresis.toInt ∨
      3 ≤ g.cols.toInt ∧ g.size.toInt < radius + 2 * g.hysteresis.toInt
  · obtain ⟨j, x, y, some, below, close, inA, inB, worldX, worldY, beyond⟩ :=
      exists_stray margins laid.wide nonneg fits.1 across
    have held : g.contains ⟨j, 0⟩ := by
      refine ⟨?_, ?_, Int32.le_refl _, ?_⟩ <;>
        simp only [Int32.le_iff_toInt_le, Int32.lt_iff_toInt_lt, zero] <;> omega
    have reached := mirrors.corner laid fits (b := ⟨j, 0⟩) (p := ⟨x, g.origin.y⟩) (q := ⟨y, g.origin.y⟩) held
      (by rintro ⟨⟩; omega) (contains_bounds laid fits worldX (by dsimp only; omega))
      (contains_bounds laid fits worldY (by dsimp only; omega)) ⟨inA, here⟩ ⟨inB, here⟩
      (by simpa [distanceSquared] using close)
    have := beyond reached.2.2.1
    dsimp only at reached
    omega
  · obtain ⟨j, x, y, some, below, close, inA, inB, worldX, worldY, beyond⟩ :=
      exists_stray margins laid.high nonneg fits.2 (by omega)
    have held : g.contains ⟨0, j⟩ := by
      refine ⟨Int32.le_refl _, ?_, ?_, ?_⟩ <;>
        simp only [Int32.le_iff_toInt_le, Int32.lt_iff_toInt_lt, zero] <;> omega
    have reached := mirrors.corner laid fits (b := ⟨0, j⟩) (p := ⟨g.origin.x, x⟩) (q := ⟨g.origin.x, y⟩) held
      (by rintro ⟨⟩; omega) (contains_bounds laid fits (by dsimp only; omega) worldX)
      (contains_bounds laid fits (by dsimp only; omega) worldY) ⟨here, inA⟩ ⟨here, inB⟩
      (by simpa [distanceSquared] using close)
    have := beyond reached.2.2.2
    dsimp only at reached
    omega

end

/-- In a world that does not reach the end of `int64`, everything within the view radius across
a border has a ghost exactly when there is one cell, or the band is as wide as the radius and
the hysteresis are together and two owners cannot stray towards each other over a cell between. -/
theorem view_mirrored {cfg : GridConfig} {g : Grid} {node : NodeConfig} {cell : CellId}
    (built : newGrid cfg = .ok g) (on : node.grid = some g)
    (hosts : node.cell = some cell) (valid : node.validate = .ok ()) (fits : g.Fits) :
    g.Mirrors node.viewRadius.toInt ↔ g.cols.toInt = 1 ∧ g.rows.toInt = 1 ∨
      node.viewRadius.toInt + g.hysteresis.toInt ≤ g.band.toInt ∧
        (node.viewRadius.toInt + 2 * g.hysteresis.toInt ≤ g.size.toInt ∨
          g.cols.toInt ≤ 2 ∧ g.rows.toInt ≤ 2) := by
  have laid := newGrid_laid built
  have hysteresis := laid.hysteresis
  obtain ⟨positive, seen⟩ := validate_radius valid on hosts
  have radius : 0 < node.viewRadius.toInt := Int64.lt_iff_toInt_lt.mp positive
  refine ⟨fun mirrors => mirrors.room laid fits (by omega) ?_, ?_⟩
  · by_cases wraps : 2 ^ 63 ≤ node.viewRadius.toInt + g.hysteresis.toInt
    · exact .inr wraps
    rw [Int64.le_iff_toInt_le, Int64.toInt_add, bmod_exact (by omega) (by omega)] at seen
    exact .inl seen
  rintro (⟨one, single⟩ | ⟨seen, room⟩) a b p q heldA heldB distinct worldP worldQ inA inB close dst
  · refine absurd ?_ distinct
    cases a
    cases b
    have zero : (0 : Int32).toInt = 0 := rfl
    simp only [Grid.contains, Int32.le_iff_toInt_le, Int32.lt_iff_toInt_lt, zero] at heldA heldB
    rw [CellId.mk.injEq, ← Int32.toInt_inj, ← Int32.toInt_inj]
    omega
  have back : distanceSquared q p ≤ node.viewRadius.toInt ^ 2 := by
    rw [distanceSquared, sub_sq_comm, sub_sq_comm q.y.toInt]
    exact close
  exact ⟨mirrors_near laid fits room seen heldA heldB worldP worldQ inA inB distinct
      (by omega) close dst,
    mirrors_near laid fits room seen heldB heldA worldQ worldP inB inA (Ne.symm distinct)
      (by omega) back dst⟩

/-- Three cells in a row. -/
def strip (hysteresis : Int64) : GridConfig where
  origin := ⟨0, 0⟩
  cellSize := 10
  cols := 3
  rows := 1
  ghostBand := 9
  hysteresis := hysteresis
  owners := ((Table.set ∅ ⟨0, 0⟩ 1).set ⟨1, 0⟩ 2).set ⟨2, 0⟩ 3

def stripGrid (hysteresis : Int64) : Grid where
  origin := ⟨0, 0⟩
  size := 10
  cols := 3
  rows := 1
  band := 9
  hysteresis := hysteresis
  owners := (strip hysteresis).owners
  cellOf := ((Table.set ∅ 1 ⟨0, 0⟩).set 2 ⟨1, 0⟩).set 3 ⟨2, 0⟩
  bounds := { max := ⟨30, 10⟩ }

def watcher (hysteresis : Int64) : NodeConfig where
  world := "strip"
  sid := 1
  grid := some (stripGrid hysteresis)
  cell := some ⟨0, 0⟩
  scene := 1
  viewRadius := 5
  attackRange := 5
  indexBlock := 5
  wakeRadius := 5

theorem view_mirrored_strip : ⟨1, 0⟩ ∈ (stripGrid 2).ghostTargets ⟨0, 0⟩ ⟨11, 5⟩ [] ∧
    ⟨0, 0⟩ ∈ (stripGrid 2).ghostTargets ⟨1, 0⟩ ⟨14, 5⟩ [] :=
  (@view_mirrored (strip 2) (stripGrid 2) (watcher 2) ⟨0, 0⟩ rfl rfl rfl rfl
    ⟨by decide, by decide⟩).mpr (by decide) ⟨0, 0⟩ ⟨1, 0⟩ ⟨11, 5⟩ ⟨14, 5⟩ (by decide) (by decide)
    (by decide) (by decide) (by decide) (by decide) (by decide) (by decide) []

/-- Two owners stray over the cell between them: three units apart, and no ghost. -/
theorem strayed_unmirrored : newGrid (strip 4) = .ok (stripGrid 4) ∧
    (watcher 4).validate = .ok () ∧
    (stripGrid 4).bounds.contains ⟨13, 5⟩ ∧ (stripGrid 4).bounds.contains ⟨16, 5⟩ ∧
    (expand ((stripGrid 4).rect ⟨0, 0⟩) 4).contains ⟨13, 5⟩ ∧
    (expand ((stripGrid 4).rect ⟨2, 0⟩) 4).contains ⟨16, 5⟩ ∧
    distanceSquared ⟨13, 5⟩ ⟨16, 5⟩ ≤ (watcher 4).viewRadius.toInt ^ 2 ∧
    (stripGrid 4).ghostTargets ⟨0, 0⟩ ⟨13, 5⟩ [] = [⟨1, 0⟩] :=
  ⟨rfl, rfl, by decide⟩

end Roost.Cellworld
