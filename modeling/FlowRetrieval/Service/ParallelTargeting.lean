/-
# Row operations on several threads

The loops of `And`, `Or` and `Count` are marked as parallel. The threads share the words of the
rows, and where a row is combined in place, the buffer as well; a loop ends when all of its
iterations are done. Whatever the number of threads and whatever the schedule, a request finds what
it finds on one thread.

## Main results

* `Bitmap.combineLoop_finishes_iff` — a row operation leaves what it leaves on one thread
* `Targeting.targets_iff` — so does `GetTarget`
* `RequestHandler.getsUvMergeRate_iff` — so does `GetUvMergeRate`
-/
import FlowRetrieval.CS.ParallelLoop
import FlowRetrieval.Service.Retrieval

namespace FlowRetrieval

open CS

namespace Bitmap

variable {capacity : ℕ} (b : Bitmap)

/-- The loop shared by the overloads of `And` and `Or`, iteration by iteration. A thread loads the
operands of a word, combines them and stores the result; here it does so byte by byte, which
allows more interleavings. -/
def combineLoop (op : UInt8 → UInt8 → UInt8) (first second : Operand) (result : ℕ) :
    Loop capacity where
  count := 8 * b.getBound
  operands k :=
    [fun buffer => b.operandByte buffer first k, fun buffer => b.operandByte buffer second k]
  value
    | [x, y] => op x y
    | _ => 0
  target k := result + k

variable {b} {op : UInt8 → UInt8 → UInt8} {first second : Operand} {result : ℕ}

/-- Operands that are combined in place, or are apart from the result, are not changed by other
iterations. -/
theorem independent_combineLoop (firstApart : first.Apart result (8 * b.getBound))
    (secondApart : second.Apart result (8 * b.getBound)) :
    Loop.Independent (b.combineLoop op first second result : Loop capacity) where
  targets j _ k _ same := Nat.add_left_cancel same
  operands k inside read operand m₁ m₂ agree := by
    have unchanged {x : Operand} (apart : x.Apart result (8 * b.getBound)) :
        b.operandByte m₁ x k = b.operandByte m₂ x k := by
      cases x with
      | row index => rfl
      | ptr address =>
        refine agree (address + k) fun j small other same => ?_
        change j < 8 * b.getBound at small
        change k < 8 * b.getBound at inside
        change result + j = address + k at same
        rcases apart with rfl | before | after <;> omega
    rcases List.mem_pair.mp operand with rfl | rfl
    · exact unchanged firstApart
    · exact unchanged secondApart

theorem apart_row (row : UInt32) (result count : ℕ) : (Operand.row row).Apart result count :=
  trivial

theorem apart_self (result count : ℕ) : (Operand.ptr result).Apart result count := .inl rfl

/-- On any number of threads a row operation leaves what it leaves on one. -/
theorem combineLoop_finishes_iff (firstApart : first.Apart result (8 * b.getBound))
    (secondApart : second.Apart result (8 * b.getBound)) {buffer last : ByteMemory capacity} :
    (b.combineLoop op first second result).Finishes buffer last ↔
      last = b.combine op first second result buffer :=
  Loop.finishes_iff (independent_combineLoop firstApart secondApart) (fun _ _ => rfl)
    fun _ _ _ => rfl

variable (b) (result)

/-- The loops of `orGroup`. -/
def orLoops : List Int32 → List (Loop capacity)
  | [] => []
  | [row] => [b.combineLoop (· ||| ·) (.row row.toUInt32) (.row row.toUInt32) result]
  | first :: second :: rows =>
    b.combineLoop (· ||| ·) (.row first.toUInt32) (.row second.toUInt32) result ::
      rows.flatMap fun row =>
        [b.combineLoop (· ||| ·) (.row row.toUInt32) (.ptr result) result]

theorem inOrder_orLoops_iff (group : List Int32) {buffer last : ByteMemory capacity} :
    Loop.InOrder (b.orLoops result group) buffer last ↔ last = b.orGroup result group buffer := by
  match group with
  | [] => rfl
  | [row] =>
    exact Loop.inOrder_singleton.trans
      (combineLoop_finishes_iff (apart_row row.toUInt32 _ _) (apart_row row.toUInt32 _ _))
  | first :: second :: rows =>
    -- every further row is added in place
    have further (row : Int32) (_ : row ∈ rows) (memory last : ByteMemory capacity) :
        Loop.InOrder [b.combineLoop (· ||| ·) (.row row.toUInt32) (.ptr result) result] memory
          last ↔ last = b.orRow row.toUInt32 result result memory :=
      Loop.inOrder_singleton.trans
        (combineLoop_finishes_iff (apart_row row.toUInt32 _ _) (apart_self _ _))
    have begins (next : ByteMemory capacity) :
        (b.combineLoop (· ||| ·) (.row first.toUInt32) (.row second.toUInt32) result).Finishes
          buffer next ↔ next = b.orRows first.toUInt32 second.toUInt32 result buffer :=
      combineLoop_finishes_iff (apart_row _ _ _) (apart_row _ _ _)
    simp only [orLoops, orGroup, Loop.InOrder, begins, Loop.inOrder_flatMap_iff further,
      exists_eq_left]

/-- A reduction of `Count` over threads, each of which goes through its own bytes of the row. -/
def CountsOn (bytes : ℕ → UInt8) (threads : List (List ℕ)) (sum : Int32) : Prop :=
  sum = (threads.map fun thread => thread.foldl
    (fun sum i => (popAll 8 (bytes i)).foldl (fun sum _ => sum + 1) sum) 0).foldl (· + ·) 0

/-- On any number of threads `Count` finds what it finds on one. -/
theorem countsOn_iff {bytes : ℕ → UInt8} {threads : List (List ℕ)} {sum : Int32}
    (spread : threads.flatten.Perm (List.range b.intWidth)) :
    CountsOn bytes threads sum ↔ sum = b.countBytes bytes := by
  have increments (sum : Int32) (bits : List ℕ) :
      bits.foldl (fun sum _ => sum + 1) sum = sum + bits.foldl (fun sum _ => sum + 1) 0 := by
    induction bits generalizing sum with
    | nil => exact (Int32.add_zero sum).symm
    | cons bit bits ih =>
      rw [List.foldl_cons, List.foldl_cons, ih, ih (0 + 1), Int32.zero_add, Int32.add_assoc]
  have adds := reduce_eq (· + ·) Int32.zero_add
    (fun sum i => increments sum (popAll 8 (bytes i))) spread
  rw [CountsOn, adds, countBytes]

end Bitmap

namespace Targeting

variable (b : Bitmap)

/-- The loops for a group after the first. -/
def andLoops : List Int32 → List (Loop (computeBufferSize * 2))
  | [] => []
  | [row] => [b.combineLoop (· &&& ·) (.row row.toUInt32) (.ptr ptr1) ptr1]
  | first :: second :: rows =>
    b.orLoops ptr2 (first :: second :: rows) ++
      [b.combineLoop (· &&& ·) (.ptr ptr1) (.ptr ptr2) ptr1]

/-- `GetTarget` on several threads. -/
def Targets (targetings : List (List Int32)) (buffer last : ComputeBuffer) : Prop :=
  match targetings with
  -- `memset`, on one thread
  | [] => last = buffer.fill 0xff ptr1 b.width.toNat
  | group :: groups =>
    Loop.InOrder (b.orLoops ptr1 group ++ groups.flatMap (andLoops b)) buffer last

variable {b}

theorem inOrder_andLoops_iff (fits : b.width.toNat ≤ computeBufferSize) (group : List Int32)
    {buffer last : ComputeBuffer} :
    Loop.InOrder (andLoops b group) buffer last ↔ last = andGroup b buffer group := by
  match group with
  | [] => rfl
  | [row] =>
    exact Loop.inOrder_singleton.trans
      (Bitmap.combineLoop_finishes_iff (Bitmap.apart_row row.toUInt32 _ _) (Bitmap.apart_self _ _))
  | first :: second :: rows =>
    -- the rows at the two pointers do not overlap, because a row fits in one half
    have halves : (Bitmap.Operand.ptr ptr2).Apart ptr1 (8 * b.getBound) := by
      have bound := bound_le b fits
      refine .inr (.inr ?_)
      rw [ptr1, ptr2]
      omega
    have ends (next : ComputeBuffer) :
        Loop.InOrder [b.combineLoop (· &&& ·) (.ptr ptr1) (.ptr ptr2) ptr1] next last ↔
          last = b.andBuffers ptr1 ptr2 ptr1 next :=
      Loop.inOrder_singleton.trans (Bitmap.combineLoop_finishes_iff (Bitmap.apart_self _ _) halves)
    simp only [andLoops, andGroup, Loop.inOrder_append, b.inOrder_orLoops_iff, ends,
      exists_eq_left]

/-- On any number of threads every schedule that ends leaves what `GetTarget` leaves on one
thread, and there is one that ends. A row has to fit in one half of the buffer. -/
theorem targets_iff (b : Bitmap) (fits : b.width.toNat ≤ computeBufferSize)
    (targetings : List (List Int32)) (buffer last : ComputeBuffer) :
    Targets b targetings buffer last ↔ last = target b targetings buffer := by
  cases targetings with
  | nil => rfl
  | cons group groups =>
    simp only [Targets, target, Loop.inOrder_append, b.inOrder_orLoops_iff,
      Loop.inOrder_flatMap_iff fun group _ _ _ => inOrder_andLoops_iff fits group, exists_eq_left]

/-- Two groups of two rows, of which the second one is united in the second half. -/
theorem targets_single :
    Targets Index.singleBitmap [[0, 0], [0, 0]] (fun _ => 0)
      (target Index.singleBitmap [[0, 0], [0, 0]] fun _ => 0) :=
  (targets_iff Index.singleBitmap (by decide) _ _ _).mpr rfl

end Targeting

namespace RequestHandler

variable {R : Type} [Double R]

/-- `GetUvMergeRate` on several threads, which are given words of the rows and bytes of the
union. -/
def GetsUvMergeRate (self : RequestHandler R) (qd : QueryData) (uvMergeMap : UvMergeBitmap)
    (threads : List (List ℕ)) (next : RequestHandler R) : Prop :=
  let rowIds := mergeRows uvMergeMap qd.psids
  ∃ union count,
    (if rowIds = [] then union = self.computeBuf.fill 0 Targeting.ptr1 uvMergeMap.width.toNat
      else Loop.InOrder (uvMergeMap.orLoops Targeting.ptr1 rowIds) self.computeBuf union) ∧
    Bitmap.CountsOn union.load threads count ∧
    next = { self with
      computeBuf := union
      uvMergeRate := ((count.toInt : R) + escapeZero) / (sumRowUv uvMergeMap rowIds + escapeZero) }

/-- On any number of threads, however they share the words of the rows and the bytes of the union,
`GetUvMergeRate` leaves what it leaves on one thread. -/
theorem getsUvMergeRate_iff (self : RequestHandler R) (qd : QueryData) (uvMergeMap : UvMergeBitmap)
    {threads : List (List ℕ)} (spread : threads.flatten.Perm (List.range uvMergeMap.intWidth))
    (next : RequestHandler R) :
    self.GetsUvMergeRate qd uvMergeMap threads next ↔ next = self.getUvMergeRate qd uvMergeMap := by
  have unites (union : Targeting.ComputeBuffer) :
      (if mergeRows uvMergeMap qd.psids = [] then
        union = self.computeBuf.fill 0 Targeting.ptr1 uvMergeMap.width.toNat
        else Loop.InOrder (uvMergeMap.orLoops Targeting.ptr1 (mergeRows uvMergeMap qd.psids))
          self.computeBuf union) ↔
        union =
          uvMergeMap.union (mergeRows uvMergeMap qd.psids) Targeting.ptr1 self.computeBuf := by
    cases rows : mergeRows uvMergeMap qd.psids with
    | nil => rfl
    | cons row rows =>
      rw [if_neg (List.cons_ne_nil _ _)]
      exact uvMergeMap.inOrder_orLoops_iff _ _
  simp only [GetsUvMergeRate, unites, Bitmap.countsOn_iff uvMergeMap.toBitmap spread,
    exists_eq_left, exists_and_left]
  rfl

/-- Two threads, which take turns with the bytes of the union. -/
theorem getsUvMergeRate_single :
    blankHandler.GetsUvMergeRate (singleQuery [97]) (Index.singleMerge [97])
      [[0, 2, 4, 6], [1, 3, 5, 7]]
      (blankHandler.getUvMergeRate (singleQuery [97]) (Index.singleMerge [97])) :=
  (getsUvMergeRate_iff _ _ _ (by decide) _).mpr rfl

end RequestHandler

end FlowRetrieval
