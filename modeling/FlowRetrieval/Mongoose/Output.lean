/-
# Writing to a client

`mg_printf` prints a text into a buffer of its own, or into one from the heap if the text is longer,
and hands it to `mg_write`, which `push`es it to the socket until all of it is gone. With a throttle
it pushes a part and sleeps for a second, again and again.

## Main results

* `Mongoose.mgWrite_arrived` — what a client gets of a text is its beginning
* `Mongoose.mgWrites_arrived` — throttled or not, a client that stays gets all texts in order
* `Mongoose.mgPrintf_iff` — a printed text arrives as it is iff it does not just fill the buffer
-/
import FlowRetrieval.CS.ByteSink
import FlowRetrieval.Service.MgThreadHandler

namespace FlowRetrieval

open CS

namespace Mongoose

/-- The socket, the clock and the stop flag of the server. -/
structure Outside (σ : Type) extends ByteSink σ where
  time : σ → ℤ × σ
  sleep : σ → σ
  stopFlag : σ → Bool × σ

/-- The fields of a connection for throttling. -/
structure Throttle where
  throttle : Int32
  lastThrottleTime : ℤ
  lastThrottleBytes : ℤ

/-- `INT_MAX`. -/
def intMax : ℕ := 2 ^ 31 - 1

/-- `MG_BUF_LEN`. -/
def mgBufLen : ℕ := 16384

variable {σ : Type} (out : Outside σ)

/-- The loop of `push` on a socket without SSL, where `sent` bytes are gone already. -/
def pushFrom (buf : Str) (len : ℤ) (s : σ) (sent : ℕ) : ℕ × σ :=
  if (sent : ℤ) < len then
    let k := min (len - sent) intMax
    match out.send s ((buf.drop sent).take k.toNat) with
    | (none, s) => (sent, s)
    | (some n, s) => if n.1 = 0 then (sent, s) else pushFrom buf len s (sent + n)
  else (sent, s)
  termination_by (len - sent).toNat

/-- `push`. -/
def push (buf : Str) (len : ℤ) (s : σ) : ℕ × σ := pushFrom out buf len s 0

/-- The loop of `mg_write`, where `total` bytes are gone already. -/
def writeThrottled (conn : Throttle) (positive : 0 < conn.throttle.toInt) (buf : Str) (s : σ)
    (total : ℕ) : ℕ × Throttle × σ :=
  if total < buf.length then
    let (stop, s) := out.stopFlag s
    if stop then (total, conn, s)
    else
      let allowed : ℤ := min conn.throttle.toInt (buf.length - total)
      let (n, s) := push out (buf.drop total) allowed s
      if n ≠ allowed then (total, conn, s)
      else
        let s := out.sleep s
        let (now, s) := out.time s
        writeThrottled { conn with lastThrottleBytes := allowed, lastThrottleTime := now }
          positive buf s (total + n)
  else (total, conn, s)
  termination_by buf.length - total

/-- `mg_write`. -/
def mgWrite (conn : Throttle) (buf : Str) (s : σ) : ℕ × Throttle × σ :=
  if positive : 0 < conn.throttle.toInt then
    let (now, s) := out.time s
    let conn' := if now ≠ conn.lastThrottleTime then
      { conn with lastThrottleTime := now, lastThrottleBytes := 0 } else conn
    let allowed := min (conn.throttle.toInt - conn'.lastThrottleBytes) buf.length
    let (total, s) := push out buf allowed s
    if total = allowed then
      writeThrottled out ⟨conn.throttle, conn'.lastThrottleTime, conn'.lastThrottleBytes + total⟩
        positive buf s total
    else (total, conn', s)
  else
    let (total, s) := push out buf buf.length s
    (total, conn, s)

/-- What the client has changes only by what is sent. -/
structure Outside.Honest (out : Outside σ) (arrived : σ → Str) : Prop where
  inOrder : out.InOrder arrived
  time : ∀ s, arrived (out.time s).2 = arrived s
  sleep : ∀ s, arrived (out.sleep s) = arrived s
  stopFlag : ∀ s, arrived (out.stopFlag s).2 = arrived s

/-- The client stays, and the server is not stopped. -/
structure Outside.Steady (out : Outside σ) (arrived : σ → Str) : Prop extends
    out.Honest arrived where
  takes : ∀ s bytes, bytes ≠ [] → 0 < out.taken s bytes
  runs : ∀ s, (out.stopFlag s).1 = false

/-- A client that takes some bytes at a time, and a clock that moves while a thread sleeps. -/
def patient : Outside ((Str × List ℕ) × ℤ) where
  send s bytes := ((ByteSink.rooms.send s.1 bytes).1, ((ByteSink.rooms.send s.1 bytes).2, s.2))
  time s := (s.2, s)
  sleep s := (s.1, s.2 + 1)
  stopFlag s := (false, s)

theorem steady_patient : patient.Steady fun s => s.1.1 where
  inOrder s bytes := ByteSink.inOrder_rooms s.1 bytes
  time _ := rfl
  sleep _ := rfl
  stopFlag _ := rfl
  takes s bytes more := ByteSink.reliable_rooms.takes s.1 bytes more
  runs _ := rfl

section Push

variable {out} {arrived : σ → Str} {buf : Str} {len : ℤ}

/-- `push` sends the next bytes, in their order, and returns how many are gone. -/
theorem pushFrom_arrived (inOrder : out.InOrder arrived) (buf : Str) (len : ℤ) (s : σ)
    (sent : ℕ) :
    arrived (pushFrom out buf len s sent).2 =
        arrived s ++ (buf.drop sent).take ((pushFrom out buf len s sent).1 - sent) ∧
      sent ≤ (pushFrom out buf len s sent).1 ∧
      ((pushFrom out buf len s sent).1 : ℤ) ≤ max len sent := by
  fun_induction pushFrom out buf len s sent with
  | case1 s sent more k s' call =>
    exact ⟨by simp [inOrder.of_eq_none call], le_rfl, le_max_right _ _⟩
  | case2 s sent more k n s' call none =>
    have order := inOrder.of_eq_some call
    exact ⟨by simpa [none] using order, le_rfl, le_max_right _ _⟩
  | case3 s sent more k n s' call some ih =>
    have order := inOrder.of_eq_some call
    have bound : n.1 ≤ k.toNat := n.2.trans (List.length_take_le ..)
    obtain ⟨arrives, larger, smaller⟩ := ih
    refine ⟨?_, by omega, by omega⟩
    -- the piece that this call has taken, and the ones behind it
    have split : (pushFrom out buf len s' (sent + n)).1 - sent =
        n + ((pushFrom out buf len s' (sent + n)).1 - (sent + n)) := by omega
    rw [arrives, order, List.take_take, min_eq_left bound, List.append_assoc, split, List.take_add,
      List.drop_drop]
  | case4 s sent done => exact ⟨by simp, le_rfl, le_max_right _ _⟩

theorem chunk_ne_nil {sent : ℕ} (whole : len ≤ buf.length) (more : sent < len) :
    (buf.drop sent).take (min (len - sent) intMax).toNat ≠ [] := by
  rw [ne_eq, List.take_eq_nil_iff, List.drop_eq_nil_iff, intMax]
  omega

/-- To a client that stays, `push` sends everything. -/
theorem pushFrom_eq (steady : out.Steady arrived) (whole : len ≤ buf.length) (s : σ) (sent : ℕ)
    (within : sent ≤ len) : ((pushFrom out buf len s sent).1 : ℤ) = len := by
  fun_induction pushFrom out buf len s sent with
  | case1 s sent more k s' call =>
    have takes := steady.takes s _ (chunk_ne_nil whole more)
    rw [ByteSink.taken, call] at takes
    exact absurd takes (lt_irrefl 0)
  | case2 s sent more k n s' call none =>
    have takes := steady.takes s _ (chunk_ne_nil whole more)
    rw [ByteSink.taken_eq call, none] at takes
    exact absurd takes (lt_irrefl 0)
  | case3 s sent more k n s' call some ih =>
    have bound : n.1 ≤ k.toNat := n.2.trans (List.length_take_le ..)
    exact ih (by omega)
  | case4 s sent done => omega

theorem push_arrived (inOrder : out.InOrder arrived) (buf : Str) (len : ℤ) (s : σ) :
    arrived (push out buf len s).2 = arrived s ++ buf.take (push out buf len s).1 ∧
      ((push out buf len s).1 : ℤ) ≤ max len 0 := by
  obtain ⟨arrives, -, bound⟩ := pushFrom_arrived inOrder buf len s 0
  exact ⟨arrives, bound⟩

theorem push_eq (steady : out.Steady arrived) (buf : Str) (len : ℤ) (whole : len ≤ buf.length)
    (nonneg : 0 ≤ len) (s : σ) : ((push out buf len s).1 : ℤ) = len :=
  pushFrom_eq steady whole s 0 nonneg

end Push

section Write

variable {out} {arrived : σ → Str} {conn : Throttle} {buf : Str}

/-- The throttled loop sends the next bytes, in their order. Its count leaves out those of a
`push` that fails. -/
theorem writeThrottled_arrived (honest : out.Honest arrived) (conn : Throttle) (buf : Str)
    (positive : 0 < conn.throttle.toInt) (s : σ) (total : ℕ) (within : total ≤ buf.length) :
    ∃ sent, (writeThrottled out conn positive buf s total).1 ≤ sent ∧ sent ≤ buf.length ∧
      total ≤ sent ∧
      arrived (writeThrottled out conn positive buf s total).2.2 =
        arrived s ++ (buf.drop total).take (sent - total) := by
  fun_induction writeThrottled out conn positive buf s total with
  | case1 conn positive s total more s' call =>
    have same := honest.stopFlag s
    rw [call] at same
    exact ⟨total, le_rfl, within, le_rfl, by simp [same]⟩
  | case2 conn positive s total more stop s' call running allowed n s'' pushed other =>
    have same := honest.stopFlag s
    rw [call] at same
    obtain ⟨arrives, bound⟩ := push_arrived honest.inOrder (buf.drop total) allowed s'
    rw [pushed] at arrives bound
    refine ⟨total + n, Nat.le_add_right _ _, by omega, Nat.le_add_right _ _, ?_⟩
    rw [arrives, same, Nat.add_sub_cancel_left]
  | case3 conn positive s total more stop s' call running allowed n s₁ pushed all s₂ now s₃ clock
      ih =>
    have same := honest.stopFlag s
    rw [call] at same
    have arrives := (push_arrived honest.inOrder (buf.drop total) allowed s').1
    rw [pushed] at arrives
    have later := honest.time s₂
    rw [clock, honest.sleep s₁] at later
    obtain ⟨sent, counted, inside, larger, whole⟩ := ih (by omega)
    refine ⟨sent, counted, inside, by omega, ?_⟩
    have split : sent - total = n + (sent - (total + n)) := by omega
    rw [whole, later, arrives, same, List.append_assoc, split, List.take_add, List.drop_drop]
  | case4 conn positive s total done => exact ⟨total, le_rfl, within, le_rfl, by simp⟩

/-- To a client that stays, the throttled loop sends everything, and at the end the last part is
no larger than the throttle. -/
theorem writeThrottled_eq (steady : out.Steady arrived) (conn : Throttle) (buf : Str)
    (positive : 0 < conn.throttle.toInt) (s : σ) (total : ℕ) (within : total ≤ buf.length)
    (small : conn.lastThrottleBytes ≤ conn.throttle.toInt) :
    (writeThrottled out conn positive buf s total).1 = buf.length ∧
      (writeThrottled out conn positive buf s total).2.1.throttle = conn.throttle ∧
      (writeThrottled out conn positive buf s total).2.1.lastThrottleBytes ≤
        conn.throttle.toInt := by
  fun_induction writeThrottled out conn positive buf s total with
  | case1 conn positive s total more s' call =>
    have runs := steady.runs s
    rw [call] at runs
    cases runs
  | case2 conn positive s total more stop s' call running allowed n s'' pushed other =>
    have whole := push_eq steady (buf.drop total) allowed (by rw [List.length_drop]; omega)
      (by omega) s'
    rw [pushed] at whole
    exact absurd whole other
  | case3 conn positive s total more stop s' call running allowed n s₁ pushed all s₂ now s₃ clock
      ih => exact ih (by omega) (min_le_left _ _)
  | case4 conn positive s total done => exact ⟨by omega, rfl, small⟩

/-- Whatever the throttle and the client do, what arrives of a text is its beginning. -/
theorem mgWrite_arrived (honest : out.Honest arrived) (conn : Throttle) (buf : Str) (s : σ) :
    ∃ sent, (mgWrite out conn buf s).1 ≤ sent ∧ sent ≤ buf.length ∧
      arrived (mgWrite out conn buf s).2.2 = arrived s ++ buf.take sent := by
  rw [mgWrite]
  split
  · rename_i positive
    have later := honest.time s
    generalize out.time s = clock at later
    obtain ⟨now, s₁⟩ := clock
    dsimp only at later ⊢
    generalize (if now ≠ conn.lastThrottleTime then
      { conn with lastThrottleTime := now, lastThrottleBytes := 0 } else conn) = conn'
    obtain ⟨arrives, bound⟩ := push_arrived honest.inOrder buf
      (min (conn.throttle.toInt - conn'.lastThrottleBytes) buf.length) s₁
    generalize push out buf (min (conn.throttle.toInt - conn'.lastThrottleBytes) buf.length) s₁ =
      pushed at arrives bound
    obtain ⟨total, s₂⟩ := pushed
    dsimp only at arrives bound ⊢
    rw [later] at arrives
    split
    · obtain ⟨sent, counted, inside, larger, rest⟩ := writeThrottled_arrived honest
        ⟨conn.throttle, conn'.lastThrottleTime, conn'.lastThrottleBytes + total⟩ buf positive s₂
        total (by omega)
      refine ⟨sent, counted, inside, ?_⟩
      rw [rest, arrives, List.append_assoc, ← List.take_add, Nat.add_sub_cancel' larger]
    · exact ⟨total, le_rfl, by omega, arrives⟩
  · obtain ⟨arrives, bound⟩ := push_arrived honest.inOrder buf buf.length s
    generalize push out buf buf.length s = pushed at arrives bound
    exact ⟨pushed.1, le_rfl, by omega, arrives⟩

/-- The budget of the current second is not overdrawn. -/
def Throttle.Within (conn : Throttle) : Prop :=
  conn.lastThrottleBytes ≤ max conn.throttle.toInt 0

theorem mgWrite_count (steady : out.Steady arrived) (within : conn.Within) (buf : Str) (s : σ) :
    (mgWrite out conn buf s).1 = buf.length ∧
      (mgWrite out conn buf s).2.1.throttle = conn.throttle ∧
      (mgWrite out conn buf s).2.1.Within := by
  rw [Throttle.Within] at within
  rw [mgWrite]
  split
  · rename_i positive
    generalize out.time s = clock
    obtain ⟨now, s₁⟩ := clock
    -- a new second has a whole budget
    have budget : (if now ≠ conn.lastThrottleTime then
        { conn with lastThrottleTime := now, lastThrottleBytes := 0 } else conn).lastThrottleBytes ≤
          conn.throttle.toInt := by
      split
      · exact positive.le
      · omega
    dsimp only
    generalize (if now ≠ conn.lastThrottleTime then
      { conn with lastThrottleTime := now, lastThrottleBytes := 0 } else conn) = conn' at budget
    have whole := push_eq steady buf
      (min (conn.throttle.toInt - conn'.lastThrottleBytes) buf.length) (min_le_right _ _)
      (by omega) s₁
    generalize push out buf (min (conn.throttle.toInt - conn'.lastThrottleBytes) buf.length) s₁ =
      pushed at whole
    obtain ⟨total, s₂⟩ := pushed
    dsimp only at whole ⊢
    rw [if_pos whole]
    obtain ⟨count, throttle, last⟩ := writeThrottled_eq steady
      ⟨conn.throttle, conn'.lastThrottleTime, conn'.lastThrottleBytes + total⟩ buf positive s₂
      total (by omega) (by dsimp only; omega)
    refine ⟨count, throttle, ?_⟩
    rw [Throttle.Within, throttle]
    exact last.trans (le_max_left _ _)
  · have whole := push_eq steady buf buf.length le_rfl (Int.natCast_nonneg _) s
    generalize push out buf buf.length s = pushed at whole
    exact ⟨by exact_mod_cast whole, rfl, within⟩

/-- A client that stays gets all of a text, if the budget is not overdrawn. -/
theorem mgWrite_eq (steady : out.Steady arrived) (within : conn.Within) (s : σ) :
    arrived (mgWrite out conn buf s).2.2 = arrived s ++ buf := by
  obtain ⟨sent, counted, inside, arrives⟩ :=
    mgWrite_arrived steady.toHonest conn buf s
  rw [(mgWrite_count steady within buf s).1] at counted
  rw [arrives, List.take_of_length_le counted]

variable (out) in
/-- Texts written one after the other. -/
def mgWrites (conn : Throttle) (s : σ) : List Str → Throttle × σ
  | [] => (conn, s)
  | buf :: bufs => mgWrites (mgWrite out conn buf s).2.1 (mgWrite out conn buf s).2.2 bufs

/-- Throttled or not, in whatever parts the client takes them, the texts arrive in order, each of
them whole. -/
theorem mgWrites_arrived (out : Outside σ) (arrived : σ → Str) (steady : out.Steady arrived)
    (conn : Throttle) (within : conn.Within) (s : σ) (bufs : List Str) :
    arrived (mgWrites out conn s bufs).2 = arrived s ++ bufs.flatten := by
  induction bufs generalizing conn s with
  | nil => simp [mgWrites]
  | cons buf bufs ih =>
    obtain ⟨-, -, later⟩ := mgWrite_count steady within buf s
    rw [mgWrites, ih _ later, mgWrite_eq steady within, List.flatten_cons, List.append_assoc]

/-- Two texts at two bytes a second, to a client that takes one byte first. -/
theorem mgWrites_patient :
    (fun s : (Str × List ℕ) × ℤ => s.1.1)
        (mgWrites patient ⟨2, 0, 0⟩ (([], [0]), 7) [.ofLiteral "abc", .ofLiteral "de"]).2 =
      [] ++ [Str.ofLiteral "abc", .ofLiteral "de"].flatten :=
  mgWrites_arrived patient _ steady_patient ⟨2, 0, 0⟩ (le_max_right _ _) _ _

end Write

section Print

/-- Memory of `size` bytes from the heap, if there is any. -/
abbrev Heap := (size : ℕ) → Option {block : Str // block.length = size}

/-- What stands in memory after `vsnprintf` has printed a text: one byte is kept for the NUL. -/
def vsnprintf (memory text : Str) : Str :=
  let printed := text.take (memory.length - 1)
  printed ++ 0 :: memory.drop (printed.length + 1)

/-- `alloc_vprintf` of a text into `mem`: the length and where the text stands. A text that is too
long for an `int` has no length. -/
def allocVprintf (malloc : Heap) (mem text : Str) : ℤ × Str :=
  if intMax < text.length then (-1, vsnprintf mem text)
  else if mem.length < text.length then
    match malloc (text.length + 1) with
    | none => (-1, mem)
    | some block => (text.length, vsnprintf block text)
  else (text.length, vsnprintf mem text)

/-- `mg_printf` of a text, with the stale bytes of its buffer. -/
def mgPrintf (malloc : Heap) (mem : {mem : Str // mem.length = mgBufLen}) (conn : Throttle)
    (text : Str) (s : σ) : ℤ × Throttle × σ :=
  let (len, buf) := allocVprintf malloc mem text
  if 0 < len then
    let (n, conn, s) := mgWrite out conn (buf.take len.toNat) s
    (n, conn, s)
  else (len, conn, s)

/-- What is sent of a text: its last byte is lost to the NUL if it just fills the buffer. -/
def printed (text : Str) : Str :=
  if text.length = mgBufLen then text.dropLast ++ [0] else text

variable {out} {arrived : σ → Str} {conn : Throttle} {malloc : Heap} {memory text : Str}

theorem take_vsnprintf (room : text.length < memory.length) :
    (vsnprintf memory text).take text.length = text := by
  have whole : text.take (memory.length - 1) = text := List.take_of_length_le (by omega)
  simp only [vsnprintf, whole, List.take_left]

theorem take_vsnprintf_full (full : text.length = memory.length) (some : text ≠ []) :
    (vsnprintf memory text).take text.length = text.dropLast ++ [0] := by
  have positive := List.length_pos_iff.mpr some
  have cut : text.take (memory.length - 1) = text.dropLast := by
    rw [← full, List.dropLast_eq_take]
  have split : text.length = text.dropLast.length + 1 := by rw [List.length_dropLast]; omega
  simp only [vsnprintf, cut]
  rw [split, List.take_length_add_append, List.take_succ_cons, List.take_zero]

/-- A text below `INT_MAX` is printed, if the heap has room for a long one. -/
theorem allocVprintf_eq (mem : {mem : Str // mem.length = mgBufLen}) (fits : text.length < intMax)
    (room : mgBufLen < text.length → (malloc (text.length + 1)).isSome) :
    (allocVprintf malloc mem text).1 = text.length ∧
      (allocVprintf malloc mem text).2.take text.length = printed text := by
  rw [allocVprintf, if_neg fits.not_gt, mem.2]
  split
  · rename_i long
    obtain ⟨block, found⟩ := Option.isSome_iff_exists.mp (room long)
    rw [found, printed, if_neg long.ne']
    exact ⟨rfl, take_vsnprintf (by rw [block.2]; omega)⟩
  · rename_i short
    refine ⟨rfl, ?_⟩
    rw [printed]
    split
    · rename_i full
      refine take_vsnprintf_full (full.trans mem.2.symm) ?_
      rintro rfl
      cases full
    · exact take_vsnprintf (by rw [mem.2]; omega)

/-- What a client gets that stays. -/
theorem mgPrintf_arrived {mem : {mem : Str // mem.length = mgBufLen}}
    (steady : out.Steady arrived) (within : conn.Within) (s : σ) (fits : text.length < intMax)
    (room : mgBufLen < text.length → (malloc (text.length + 1)).isSome) :
    arrived (mgPrintf out malloc mem conn text s).2.2 = arrived s ++ printed text := by
  obtain ⟨length, buffer⟩ := allocVprintf_eq mem fits room
  rw [mgPrintf]
  generalize allocVprintf malloc mem text = result at length buffer
  obtain ⟨len, buf⟩ := result
  dsimp only at length buffer ⊢
  subst length
  split
  · rw [Int.toNat_natCast, buffer]
    exact mgWrite_eq steady within s
  · have empty : text = [] := List.length_eq_zero_iff.mp (by omega)
    subst empty
    rw [printed, if_neg (by decide), List.append_nil]

theorem printed_eq_iff :
    printed text = text ↔ (text.length = mgBufLen → text.getLast? = some 0) := by
  rw [printed]
  split
  · rename_i full
    rw [forall_prop_of_true full]
    constructor
    · intro same
      rw [← same, List.getLast?_concat]
    · intro last
      exact List.dropLast_append_getLast? 0 last
  · rename_i other
    exact iff_of_true rfl fun full => absurd full other

/-- `mg_printf` to a client that stays, of a text that an `int` can count: the text arrives as it
is iff it does not just fill the buffer, or ends in a NUL anyway. -/
theorem mgPrintf_iff (out : Outside σ) (arrived : σ → Str) (steady : out.Steady arrived)
    (malloc : Heap) (mem : {mem : Str // mem.length = mgBufLen}) (conn : Throttle)
    (within : conn.Within) (text : Str) (fits : text.length < intMax)
    (room : mgBufLen < text.length → (malloc (text.length + 1)).isSome) (s : σ) :
    arrived (mgPrintf out malloc mem conn text s).2.2 = arrived s ++ text ↔
      (text.length = mgBufLen → text.getLast? = some 0) := by
  rw [mgPrintf_arrived steady within s fits room, List.append_cancel_left_eq, printed_eq_iff]

/-- The buffer before anything is printed. -/
def zeroed : {mem : Str // mem.length = mgBufLen} :=
  ⟨List.replicate mgBufLen 0, List.length_replicate⟩

theorem mgPrintf_patient :
    (fun s : (Str × List ℕ) × ℤ => s.1.1)
        (mgPrintf patient (fun _ => none) zeroed ⟨0, 0, 0⟩ (.ofLiteral "ok\n") (([], [0]), 7)).2.2 =
        [] ++ Str.ofLiteral "ok\n" ↔
      ((Str.ofLiteral "ok\n").length = mgBufLen → (Str.ofLiteral "ok\n").getLast? = some 0) :=
  mgPrintf_iff patient _ steady_patient _ zeroed ⟨0, 0, 0⟩ (le_max_right _ _)
    (.ofLiteral "ok\n") (by decide) (fun long => absurd long (by decide)) _

end Print

end Mongoose

end FlowRetrieval
