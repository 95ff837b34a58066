/-
# The URI of a request

`handle_request` cuts off the query string, decodes the rest, and takes out repeated slashes and
the double dots behind them, all of it in place in the buffer of the connection.

## Main results

* `Mongoose.mgUrlDecode_encoded` — any percent encoding of a text is decoded
* `Mongoose.safe_clean`, `Mongoose.clean_eq_self_iff` — what is left of a path
* `Mongoose.handled_decodeUri` — the URI that a request is handled with
-/
import FlowRetrieval.CS.TextMemory
import FlowRetrieval.Mongoose.RequestHead

namespace FlowRetrieval

open CS

namespace Mongoose

section Code

variable {capacity : ℕ}

/-- `isxdigit`. -/
def isxdigit (c : UInt8) : Bool :=
  (48 ≤ c && c ≤ 57) || (65 ≤ c && c ≤ 70) || (97 ≤ c && c ≤ 102)

/-- `HEXTOI` behind `tolower`. -/
def hexToI (c : UInt8) : UInt8 :=
  if 48 ≤ lowercase c ∧ lowercase c ≤ 57 then lowercase c - 48 else lowercase c - 87

/-- The byte for two hexadecimal digits. -/
def fromHex (a b : UInt8) : UInt8 := (hexToI a <<< 4) ||| hexToI b

/-- The byte for one that is not a part of `%XX`. -/
def plainByte (isFormUrlEncoded : Bool) (c : UInt8) : UInt8 :=
  if isFormUrlEncoded ∧ c = 43 then 32 else c

/-- The loop of `mg_url_decode`, where `src` and `dst` are addresses in one memory. -/
def decodeFrom (src srcLen dst dstLen : ℕ) (isFormUrlEncoded : Bool) (memory : ByteMemory capacity)
    (i j : ℕ) : ℕ × ℕ × ByteMemory capacity :=
  if i < srcLen ∧ j + 1 < dstLen then
    let c := memory.load (src + i)
    let a := memory.load (src + i + 1)
    let b := memory.load (src + i + 2)
    if c = 37 ∧ i + 2 < srcLen ∧ isxdigit a ∧ isxdigit b then
      decodeFrom src srcLen dst dstLen isFormUrlEncoded (memory.store (dst + j) (fromHex a b))
        (i + 3) (j + 1)
    else
      decodeFrom src srcLen dst dstLen isFormUrlEncoded
        (memory.store (dst + j) (plainByte isFormUrlEncoded c)) (i + 1) (j + 1)
  else (i, j, memory)
termination_by srcLen - i

/-- `mg_url_decode`: the value returned, and the memory. -/
def mgUrlDecode (memory : ByteMemory capacity) (src srcLen dst dstLen : ℕ)
    (isFormUrlEncoded : Bool) : ℤ × ByteMemory capacity :=
  let (i, j, memory) := decodeFrom src srcLen dst dstLen isFormUrlEncoded memory 0 0
  (if srcLen ≤ i then j else -1, memory.store (dst + j) 0)

/-- A slash or a backslash. -/
def isSlash (c : UInt8) : Bool := c = 47 || c = 92

/-- The inner loop of `remove_double_dots_and_double_slashes`. -/
def skipFrom (memory : ByteMemory capacity) (s : ℕ) : ℕ :=
  if memory.load s = 0 then s
  else if isSlash (memory.load s) then skipFrom memory (s + 1)
  else if memory.load s = 46 ∧ memory.load (s + 1) = 46 then skipFrom memory (s + 2)
  else s
termination_by capacity - s
decreasing_by
  all_goals
    have := ByteMemory.lt_of_load_ne_zero ‹¬ memory.load s = 0›
    omega

theorem le_skipFrom (memory : ByteMemory capacity) (s : ℕ) : s ≤ skipFrom memory s := by
  fun_induction skipFrom memory s with
  | case1 => exact le_rfl
  | case2 s some slash ih => omega
  | case3 s some other dots ih => omega
  | case4 => exact le_rfl

/-- The outer loop: the memory, and the address behind what is kept. -/
def removeFrom (memory : ByteMemory capacity) (s p : ℕ) : ByteMemory capacity × ℕ :=
  if memory.load s = 0 then (memory, p)
  else
    let memory' := memory.store p (memory.load s)
    if isSlash (memory'.load s) then removeFrom memory' (skipFrom memory' (s + 1)) (p + 1)
    else removeFrom memory' (s + 1) (p + 1)
termination_by capacity - s
decreasing_by
  all_goals
    have := ByteMemory.lt_of_load_ne_zero ‹¬ memory.load s = 0›
    have := le_skipFrom (memory.store p (memory.load s)) (s + 1)
    omega

/-- `remove_double_dots_and_double_slashes`. -/
def removeDoubleDotsAndDoubleSlashes (memory : ByteMemory capacity) (s : ℕ) :
    ByteMemory capacity :=
  let (memory, p) := removeFrom memory s s
  memory.store p 0

/-- What `handle_request` does with the URI: where the query string is, and the memory. -/
def decodeUri (memory : ByteMemory capacity) (uri : ℕ) : Option ℕ × ByteMemory capacity :=
  let question := (memory.string uri).findIdx? fun c => c = 63
  let memory := match question with
    | some k => memory.store (uri + k) 0
    | none => memory
  let uriLen := (memory.string uri).length
  let (_, memory) := mgUrlDecode memory uri uriLen uri (uriLen + 1) false
  (question.map fun k => uri + k + 1, removeDoubleDotsAndDoubleSlashes memory uri)

end Code

section Texts

/-- A text that begins with two hexadecimal digits. -/
def startsHex (text : Str) : Bool :=
  2 ≤ text.length && isxdigit (text.getD 0 0) && isxdigit (text.getD 1 0)

/-- A text without its percent encoding. -/
def urlDecode (isFormUrlEncoded : Bool) : Str → Str
  | [] => []
  | c :: rest =>
    if c = 37 ∧ startsHex rest then
      fromHex (rest.getD 0 0) (rest.getD 1 0) :: urlDecode isFormUrlEncoded (rest.drop 2)
    else plainByte isFormUrlEncoded c :: urlDecode isFormUrlEncoded rest
termination_by text => text.length

/-- A text behind the slashes and double dots that it begins with. -/
def skipDots : Str → Str
  | [] => []
  | c :: rest =>
    if isSlash c then skipDots rest
    else if c = 46 ∧ rest.head? = some 46 then skipDots rest.tail
    else c :: rest
termination_by text => text.length
decreasing_by
  all_goals
    rw [List.length_cons]
    try rw [List.length_tail]
    omega

theorem length_skipDots_le (text : Str) : (skipDots text).length ≤ text.length := by
  fun_induction skipDots text with
  | case1 => exact le_rfl
  | case2 c rest slash ih => exact ih.trans (Nat.le_succ _)
  | case3 c rest other dots ih =>
    rw [List.length_tail] at ih
    rw [List.length_cons]
    omega
  | case4 => exact le_rfl

/-- A text without the slashes and double dots behind its slashes. -/
def clean : Str → Str
  | [] => []
  | c :: rest => c :: clean (if isSlash c then skipDots rest else rest)
termination_by text => text.length
decreasing_by
  have := length_skipDots_le rest
  split <;> simp only [List.length_cons] <;> omega

end Texts

section Decode

variable {capacity : ℕ} {isFormUrlEncoded : Bool} {src srcLen dst dstLen : ℕ}

theorem startsHex_read (memory : ByteMemory capacity) (start count : ℕ) :
    startsHex (memory.read start count) = true ↔
      2 ≤ count ∧ isxdigit (memory.load start) ∧ isxdigit (memory.load (start + 1)) := by
  rw [startsHex, Bool.and_eq_true, Bool.and_eq_true, decide_eq_true_eq,
    ByteMemory.length_read, and_assoc]
  refine and_congr_right fun more => ?_
  rw [ByteMemory.getD_read _ _ (by omega), ByteMemory.getD_read _ _ (by omega), Nat.add_zero]

theorem urlDecode_read (memory : ByteMemory capacity) (start count : ℕ) :
    urlDecode isFormUrlEncoded (memory.read start (count + 1)) =
      if memory.load start = 37 ∧ 2 ≤ count ∧ isxdigit (memory.load (start + 1)) ∧
          isxdigit (memory.load (start + 2)) then
        fromHex (memory.load (start + 1)) (memory.load (start + 2)) ::
          urlDecode isFormUrlEncoded (memory.read (start + 3) (count - 2))
      else
        plainByte isFormUrlEncoded (memory.load start) ::
          urlDecode isFormUrlEncoded (memory.read (start + 1) count) := by
  have begins := startsHex_read memory (start + 1) count
  rw [ByteMemory.read, urlDecode]
  split_ifs with here hex other
  · obtain ⟨-, more, -⟩ := hex
    rw [ByteMemory.getD_read _ _ (by omega), ByteMemory.getD_read _ _ (by omega),
      ByteMemory.drop_read]
  · exact absurd ⟨here.1, begins.mp here.2⟩ hex
  · exact absurd ⟨other.1, begins.mpr other.2⟩ here
  · rfl

/-- What the loop leaves when `text` is what is still to be decoded. -/
structure Decoded (srcLen dst dstLen : ℕ) (memory : ByteMemory capacity) (j : ℕ) (text : Str)
    (result : ℕ × ℕ × ByteMemory capacity) : Prop where
  all_iff : srcLen ≤ result.1 ↔ text.length < dstLen - j
  count : result.2.1 = j + (text.take (dstLen - 1 - j)).length
  written : memory.Written (dst + j) (text.take (dstLen - 1 - j)) result.2.2

theorem Decoded.cons {memory : ByteMemory capacity} {j : ℕ} {c : UInt8} {text : Str}
    {result : ℕ × ℕ × ByteMemory capacity} (room : j + 1 < dstLen) (fits : dst + dstLen ≤ capacity)
    (decoded : Decoded srcLen dst dstLen (memory.store (dst + j) c) (j + 1) text result) :
    Decoded srcLen dst dstLen memory j (c :: text) result := by
  have split : dstLen - 1 - j = dstLen - 1 - (j + 1) + 1 := by omega
  obtain ⟨all_iff, count, written⟩ := decoded
  refine ⟨?_, ?_, ?_⟩
  · rw [all_iff, List.length_cons]
    omega
  · rw [count, split, List.take_succ_cons, List.length_cons]
    omega
  · rw [split, List.take_succ_cons]
    exact written.cons (by omega)

/-- The loop writes the decoded text as far as there is room for it. The destination may be the
source, in front of it or behind it. -/
theorem decodeFrom_eq (apart : dst ≤ src ∨ src + srcLen ≤ dst) (isFormUrlEncoded : Bool)
    (memory : ByteMemory capacity) (i j : ℕ) (behind : j ≤ i) (room : j < dstLen)
    (fits : dst + dstLen ≤ capacity) :
    Decoded srcLen dst dstLen memory j
      (urlDecode isFormUrlEncoded (memory.read (src + i) (srcLen - i)))
      (decodeFrom src srcLen dst dstLen isFormUrlEncoded memory i j) := by
  fun_induction decodeFrom src srcLen dst dstLen isFormUrlEncoded memory i j with
  | case1 memory i j more c a b hex ih =>
    have ahead : (memory.store (dst + j) (fromHex a b)).read (src + (i + 3)) (srcLen - (i + 3)) =
        memory.read (src + (i + 3)) (srcLen - (i + 3)) :=
      ByteMemory.read_congr fun address lower upper =>
        ByteMemory.load_store_of_ne _ _ (by omega)
    have decoded := (ih (by omega) (by omega)).cons more.2 fits
    obtain ⟨percent, enough, digits⟩ := hex
    have count : srcLen - i = srcLen - (i + 3) + 2 + 1 := by omega
    rw [count, urlDecode_read, if_pos ⟨percent, by omega, digits⟩, Nat.add_sub_cancel]
    rw [ahead] at decoded
    exact decoded
  | case2 memory i j more c a b plain ih =>
    have ahead : (memory.store (dst + j) (plainByte isFormUrlEncoded c)).read (src + (i + 1))
        (srcLen - (i + 1)) = memory.read (src + (i + 1)) (srcLen - (i + 1)) :=
      ByteMemory.read_congr fun address lower upper =>
        ByteMemory.load_store_of_ne _ _ (by omega)
    have decoded := (ih (by omega) (by omega)).cons more.2 fits
    have count : srcLen - i = srcLen - (i + 1) + 1 := by omega
    rw [count, urlDecode_read, if_neg fun hex => plain ⟨hex.1, by omega, hex.2.2⟩]
    rw [ahead] at decoded
    exact decoded
  | case3 memory i j stop =>
    rcases Nat.lt_or_ge i srcLen with more | ended
    · -- there is no room for the next byte
      have count : srcLen - i = srcLen - (i + 1) + 1 := by omega
      have some : urlDecode isFormUrlEncoded (memory.read (src + i) (srcLen - i)) ≠ [] := by
        rw [count, urlDecode_read]
        split_ifs <;> exact List.cons_ne_nil _ _
      have positive := List.length_pos_iff.mpr some
      have full : dstLen - 1 - j = 0 := by omega
      refine ⟨iff_of_false more.not_ge (by omega), ?_, ?_⟩ <;> rw [full, List.take_zero]
      · rfl
      · exact .nil _ _
    · rw [Nat.sub_eq_zero_of_le ended, ByteMemory.read, urlDecode]
      exact ⟨iff_of_true ended (Nat.sub_pos_of_lt room), by simp, by simpa using .nil _ _⟩

/-- `mg_url_decode` writes the decoded text with a zero behind it, as far as there is room, and
returns its length or -1. -/
theorem mgUrlDecode_eq (apart : dst ≤ src ∨ src + srcLen ≤ dst) (memory : ByteMemory capacity)
    (room : 0 < dstLen) (fits : dst + dstLen ≤ capacity) (isFormUrlEncoded : Bool) :
    let text := urlDecode isFormUrlEncoded (memory.read src srcLen)
    let result := mgUrlDecode memory src srcLen dst dstLen isFormUrlEncoded
    result.1 = (if text.length < dstLen then (text.length : ℤ) else -1) ∧
      memory.Written dst (text.take (dstLen - 1) ++ [0]) result.2 := by
  obtain ⟨all_iff, count, written⟩ :=
    decodeFrom_eq apart isFormUrlEncoded memory 0 0 le_rfl room fits
  rw [mgUrlDecode]
  generalize decodeFrom src srcLen dst dstLen isFormUrlEncoded memory 0 0 = result
    at all_iff count written
  obtain ⟨i, j, memory'⟩ := result
  simp only [Nat.add_zero, Nat.sub_zero, Nat.zero_add] at all_iff count written
  subst count
  generalize urlDecode isFormUrlEncoded (memory.read src srcLen) = text at all_iff written ⊢
  have length := List.length_take_le (dstLen - 1) text
  refine ⟨?_, written.concat (by omega)⟩
  dsimp only
  by_cases short : text.length < dstLen
  · rw [if_pos (all_iff.mpr short), if_pos short, List.take_of_length_le (by omega)]
  · rw [if_neg (mt all_iff.mp short), if_neg short]

/-- A hexadecimal digit, with a capital or a small letter. -/
def hexDigit (capital : Bool) (n : ℕ) : UInt8 :=
  .ofNat (if n < 10 then 48 + n else if capital then 55 + n else 87 + n)

/-- The percent encodings of a text: every byte stands for itself or is encoded, a percent sign is
always encoded, and in a form a plus sign stands for a blank. -/
inductive Encodes (isFormUrlEncoded : Bool) : Str → Str → Prop
  | nil : Encodes isFormUrlEncoded [] []
  | plain {c : UInt8} {text encoded : Str} (notPercent : c ≠ 37)
      (notPlus : isFormUrlEncoded = true → c ≠ 43) (later : Encodes isFormUrlEncoded text encoded) :
      Encodes isFormUrlEncoded (c :: text) (c :: encoded)
  | blank {text encoded : Str} (form : isFormUrlEncoded = true)
      (later : Encodes isFormUrlEncoded text encoded) :
      Encodes isFormUrlEncoded (32 :: text) (43 :: encoded)
  | hex (c : UInt8) (first second : Bool) {text encoded : Str}
      (later : Encodes isFormUrlEncoded text encoded) :
      Encodes isFormUrlEncoded (c :: text)
        (37 :: hexDigit first (c.toNat / 16) :: hexDigit second (c.toNat % 16) :: encoded)

theorem hexToI_hexDigit (capital : Bool) {n : ℕ} (small : n < 16) :
    isxdigit (hexDigit capital n) = true ∧ hexToI (hexDigit capital n) = .ofNat n := by
  have all : ∀ capital : Bool, ∀ n : Fin 16,
      isxdigit (hexDigit capital n) = true ∧ hexToI (hexDigit capital n) = .ofNat n := by decide
  exact all capital ⟨n, small⟩

/-- The two digits of a byte give the byte. -/
theorem fromHex_hexDigit (c : UInt8) (first second : Bool) :
    fromHex (hexDigit first (c.toNat / 16)) (hexDigit second (c.toNat % 16)) = c := by
  have bound := c.toNat_lt
  have high : c.toNat / 16 < 16 := by omega
  have low : c.toNat % 16 < 16 := Nat.mod_lt _ (by decide)
  rw [fromHex, (hexToI_hexDigit first high).2, (hexToI_hexDigit second low).2]
  apply UInt8.toNat_inj.mp
  have four : (4 : UInt8).toNat % 8 = 4 := rfl
  rw [UInt8.toNat_or, UInt8.toNat_shiftLeft, UInt8.toNat_ofNat', UInt8.toNat_ofNat', four,
    Nat.mod_eq_of_lt (by omega), Nat.mod_eq_of_lt (by omega), Nat.mod_eq_of_lt (by omega),
    ← Nat.shiftLeft_add_eq_or_of_lt low, Nat.shiftLeft_eq]
  omega

theorem urlDecode_encoded {text encoded : Str} (encodes : Encodes isFormUrlEncoded text encoded) :
    urlDecode isFormUrlEncoded encoded = text := by
  induction encodes with
  | nil => rw [urlDecode]
  | @plain c text encoded notPercent notPlus _ ih =>
    rw [urlDecode, if_neg fun percent => notPercent percent.1, ih, plainByte,
      if_neg fun plus => notPlus plus.1 plus.2]
  | @blank text encoded form _ ih =>
    rw [urlDecode, if_neg fun percent => absurd percent.1 (by decide), ih, plainByte,
      if_pos ⟨form, rfl⟩]
  | @hex c first second text encoded _ ih =>
    have begins : startsHex (hexDigit first (c.toNat / 16) :: hexDigit second (c.toNat % 16) ::
        encoded) = true := by
      have bound := c.toNat_lt
      rw [startsHex, Bool.and_eq_true, Bool.and_eq_true]
      exact ⟨⟨decide_eq_true (by simp), (hexToI_hexDigit first (by omega)).1⟩,
        (hexToI_hexDigit second (Nat.mod_lt _ (by decide))).1⟩
    rw [urlDecode, if_pos ⟨rfl, begins⟩]
    exact congrArg₂ List.cons (fromHex_hexDigit c first second) ih

/-- Whatever percent encoding of a text stands at `src`, and wherever the decoded text goes, except
into the source behind its start: it is the text that is written, with a zero behind it, as far as
there is room, and nothing else. -/
theorem mgUrlDecode_encoded {text encoded : Str} (encodes : Encodes isFormUrlEncoded text encoded)
    (memory : ByteMemory capacity) (source : memory.read src encoded.length = encoded)
    (apart : dst ≤ src ∨ src + encoded.length ≤ dst) (room : 0 < dstLen)
    (fits : dst + dstLen ≤ capacity) :
    let result := mgUrlDecode memory src encoded.length dst dstLen isFormUrlEncoded
    result.1 = (if text.length < dstLen then (text.length : ℤ) else -1) ∧
      memory.Written dst (text.take (dstLen - 1) ++ [0]) result.2 := by
  have decoded := mgUrlDecode_eq apart memory room fits isFormUrlEncoded
  rwa [source, urlDecode_encoded encodes] at decoded

/-- A text at the start of a buffer. -/
def bufferOf (text : Str) : ByteMemory 32 := fun i => text.getD i 0

/-- A value of a form in place. -/
theorem mgUrlDecode_form :
    let result := mgUrlDecode (bufferOf (.ofLiteral "a+%2B")) 0 5 0 6 true
    result.1 = (if (Str.ofLiteral "a +").length < 6 then ((Str.ofLiteral "a +").length : ℤ)
      else -1) ∧
      ByteMemory.Written (bufferOf (.ofLiteral "a+%2B")) 0
        ((Str.ofLiteral "a +").take (6 - 1) ++ [0]) result.2 :=
  mgUrlDecode_encoded
    (.plain (by decide) (fun _ => by decide) (.blank rfl (.hex 43 false true .nil)))
    (bufferOf (.ofLiteral "a+%2B")) (by decide) (.inl le_rfl) (by decide) (by decide)

end Decode

section Clean

variable {capacity : ℕ}

theorem string_skipFrom (memory : ByteMemory capacity) (s : ℕ) :
    memory.string (skipFrom memory s) = skipDots (memory.string s) := by
  fun_induction skipFrom memory s with
  | case1 s zero => rw [ByteMemory.string_eq_nil zero, skipDots]
  | case2 s some slash ih =>
    rw [ih, ByteMemory.string_eq_cons some, skipDots, if_pos slash]
  | case3 s some other dots ih =>
    have next : memory.load (s + 1) ≠ 0 := by
      rw [dots.2]
      decide
    have second := (ByteMemory.head?_string_eq_some_iff (by decide)).mpr dots.2
    rw [ih, ByteMemory.string_eq_cons some, skipDots, if_neg other, if_pos ⟨dots.1, second⟩,
      ByteMemory.string_eq_cons next, List.tail_cons]
  | case4 s some other more =>
    have single : ¬ (memory.load s = 46 ∧ (memory.string (s + 1)).head? = Option.some 46) :=
      fun dots => more ⟨dots.1, (ByteMemory.head?_string_eq_some_iff (by decide)).mp dots.2⟩
    rw [ByteMemory.string_eq_cons some, skipDots, if_neg other, if_neg single]

/-- The byte that is copied is not changed by that. -/
theorem load_store_load (memory : ByteMemory capacity) (s p : ℕ) (some : memory.load s ≠ 0) :
    (memory.store p (memory.load s)).load s = memory.load s := by
  by_cases same : s = p
  · subst same
    exact ByteMemory.load_store_self _ _ (ByteMemory.lt_of_load_ne_zero some)
  · exact ByteMemory.load_store_of_ne _ _ same

/-- The loop writes what is kept over the text, as long as it does not write ahead of it. -/
theorem removeFrom_eq (memory : ByteMemory capacity) (s p : ℕ) (behind : p ≤ s) :
    (removeFrom memory s p).2 = p + (clean (memory.string s)).length ∧
      memory.Written p (clean (memory.string s)) (removeFrom memory s p).1 := by
  fun_induction removeFrom memory s p with
  | case1 memory s p zero =>
    rw [ByteMemory.string_eq_nil zero, clean]
    exact ⟨rfl, .nil _ _⟩
  | case2 memory s p some memory' slash ih =>
    have inside := ByteMemory.lt_of_load_ne_zero some
    have ahead : memory'.string (s + 1) = memory.string (s + 1) :=
      ByteMemory.string_congr fun address lower => ByteMemory.load_store_of_ne _ _ (by omega)
    have later := le_skipFrom memory' (s + 1)
    obtain ⟨count, written⟩ := ih (by omega)
    rw [string_skipFrom, ahead] at count written
    rw [load_store_load memory s p some] at slash
    rw [ByteMemory.string_eq_cons some, clean, if_pos slash]
    refine ⟨?_, written.cons (by omega)⟩
    rw [count, List.length_cons]
    omega
  | case3 memory s p some memory' other ih =>
    have inside := ByteMemory.lt_of_load_ne_zero some
    have ahead : memory'.string (s + 1) = memory.string (s + 1) :=
      ByteMemory.string_congr fun address lower => ByteMemory.load_store_of_ne _ _ (by omega)
    obtain ⟨count, written⟩ := ih (by omega)
    rw [ahead] at count written
    rw [load_store_load memory s p some] at other
    rw [ByteMemory.string_eq_cons some, clean, if_neg other]
    refine ⟨?_, written.cons (by omega)⟩
    rw [count, List.length_cons]
    omega

/-- Neither a slash nor a double dot is next. -/
def Clear (behind : Str) : Prop :=
  (∀ d ∈ behind.head?, isSlash d = false) ∧ ¬ [46, 46] <+: behind

/-- Wherever a slash stands in a path, neither another one nor a double dot follows. -/
def Safe (path : Str) : Prop :=
  ∀ before c behind, path = before ++ c :: behind → isSlash c = true → Clear behind

theorem dots_iff {behind : Str} :
    [46, 46] <+: behind ↔ behind.head? = some 46 ∧ behind.tail.head? = some 46 := by
  rcases behind with _ | ⟨c, _ | ⟨d, behind⟩⟩
  · simp
  · simp
  · rw [List.cons_prefix_cons, List.cons_prefix_cons, and_iff_left List.nil_prefix, eq_comm,
      @eq_comm _ 46 d, List.head?_cons, List.tail_cons, List.head?_cons, Option.some_inj,
      Option.some_inj]

theorem clear_skipDots (text : Str) : Clear (skipDots text) := by
  fun_induction skipDots text with
  | case1 => exact ⟨by simp, by simp⟩
  | case2 c rest slash ih => exact ih
  | case3 c rest other dots ih => exact ih
  | case4 c rest other more =>
    refine ⟨?_, fun dots => ?_⟩
    · rintro d ⟨⟩
      exact Bool.eq_false_iff.mpr other
    · obtain ⟨first, second⟩ := dots_iff.mp dots
      exact more ⟨Option.some.inj first, second⟩

theorem Clear.skipDots_eq {text : Str} (clear : Clear text) : skipDots text = text := by
  obtain ⟨noSlash, noDots⟩ := clear
  cases text with
  | nil => rw [skipDots]
  | cons c rest =>
    have other : ¬ isSlash c = true := Bool.eq_false_iff.mp (noSlash c rfl)
    rw [skipDots, if_neg other,
      if_neg fun dots => noDots (dots_iff.mpr ⟨congrArg some dots.1, dots.2⟩)]

theorem safe_cons_iff {c : UInt8} {rest : Str} :
    Safe (c :: rest) ↔ (isSlash c = true → Clear rest) ∧ Safe rest := by
  constructor
  · intro safe
    exact ⟨safe [] c rest rfl, fun before d behind split =>
      safe (c :: before) d behind (by rw [split, List.cons_append])⟩
  · rintro ⟨first, later⟩ before d behind split slash
    cases before with
    | nil =>
      obtain ⟨rfl, rfl⟩ := List.cons.inj split
      exact first slash
    | cons _ before => exact later before d behind (List.cons.inj split).2 slash

theorem head?_clean (text : Str) : (clean text).head? = text.head? := by
  cases text with
  | nil => rw [clean]
  | cons c rest => rw [clean, List.head?_cons, List.head?_cons]

theorem clear_clean {text : Str} (clear : Clear text) : Clear (clean text) := by
  obtain ⟨noSlash, noDots⟩ := clear
  refine ⟨by rwa [head?_clean], fun dots => noDots ?_⟩
  obtain ⟨first, second⟩ := dots_iff.mp dots
  rw [head?_clean] at first
  cases text with
  | nil => cases first
  | cons c rest =>
    have dot : c = 46 := Option.some.inj first
    have other : ¬ isSlash c = true := by rw [dot]; decide
    rw [clean, if_neg other, List.tail_cons, head?_clean] at second
    exact dots_iff.mpr ⟨first, second⟩

/-- What is left of a path is safe. -/
theorem safe_clean (text : Str) : Safe (clean text) := by
  fun_induction clean text with
  | case1 => exact fun before c behind split => absurd split (by simp)
  | case2 c rest ih =>
    refine safe_cons_iff.mpr ⟨fun slash => ?_, ih⟩
    rw [if_pos slash]
    exact clear_clean (clear_skipDots rest)

/-- A path is left as it is exactly if it is safe. -/
theorem clean_eq_self_iff {text : Str} : clean text = text ↔ Safe text := by
  constructor
  · intro same
    rw [← same]
    exact safe_clean text
  · intro safe
    induction text with
    | nil => rw [clean]
    | cons c rest ih =>
      obtain ⟨first, later⟩ := safe_cons_iff.mp safe
      rw [clean]
      split_ifs with slash
      · rw [(first slash).skipDots_eq, ih later]
      · rw [ih later]

theorem skipDots_suffix (text : Str) : skipDots text <:+ text := by
  fun_induction skipDots text with
  | case1 => exact List.suffix_rfl
  | case2 c rest slash ih => exact ih.trans (List.suffix_cons _ _)
  | case3 c rest other dots ih =>
    exact (ih.trans (List.tail_suffix _)).trans (List.suffix_cons _ _)
  | case4 => exact List.suffix_rfl

/-- Nothing is added to a path. -/
theorem clean_sublist (text : Str) : List.Sublist (clean text) text := by
  fun_induction clean text with
  | case1 => exact List.Sublist.refl _
  | case2 c rest ih =>
    refine List.Sublist.cons_cons c (ih.trans ?_)
    split_ifs
    · exact (skipDots_suffix rest).sublist
    · exact List.Sublist.refl _

end Clean

section Uri

variable {capacity : ℕ}

theorem length_urlDecode_le (isFormUrlEncoded : Bool) (text : Str) :
    (urlDecode isFormUrlEncoded text).length ≤ text.length := by
  fun_induction urlDecode isFormUrlEncoded text with
  | case1 => exact le_rfl
  | case2 c rest hex ih =>
    rw [List.length_drop] at ih
    rw [List.length_cons, List.length_cons]
    omega
  | case3 c rest other ih =>
    rw [List.length_cons, List.length_cons]
    omega

/-- The path of a request target. -/
def pathOf (target : Str) : Str := target.takeWhile fun c => c ≠ 63

/-- What `handle_request` makes of a path. -/
def uriOf (path : Str) : Str := clean ((urlDecode false path).takeWhile fun c => c ≠ 0)

/-- `remove_double_dots_and_double_slashes` cleans the text at `s`. -/
theorem written_removeDoubleDots (memory : ByteMemory capacity) (s : ℕ)
    (inside : s + (memory.string s).length < capacity) :
    memory.Written s (clean (memory.string s) ++ [0])
      (removeDoubleDotsAndDoubleSlashes memory s) := by
  obtain ⟨count, written⟩ := removeFrom_eq memory s s le_rfl
  have shorter := (clean_sublist (memory.string s)).length_le
  rw [removeDoubleDotsAndDoubleSlashes]
  dsimp only
  rw [count]
  exact written.concat (by omega)

/-- What `handle_request` does with a path that ends with a zero. -/
theorem decode_path (memory : ByteMemory capacity) (uri : ℕ) {path : Str}
    (text : memory.string uri = path) (inside : uri + path.length < capacity) :
    let decoded := (mgUrlDecode memory uri path.length uri (path.length + 1) false).2
    let cleaned := removeDoubleDotsAndDoubleSlashes decoded uri
    cleaned.string uri = uriOf path ∧ ∀ address, address < uri ∨ uri + path.length < address →
      cleaned.load address = memory.load address := by
  intro decoded cleaned
  have read : memory.read uri path.length = path := text ▸ memory.read_length_string uri
  have shorter := length_urlDecode_le false path
  obtain ⟨-, written⟩ := mgUrlDecode_eq (.inl le_rfl) memory path.length.succ_pos
    (show uri + (path.length + 1) ≤ capacity by omega) false
  rw [read, Nat.succ_sub_one, List.take_of_length_le shorter] at written
  have string : decoded.string uri = (urlDecode false path).takeWhile fun c => c ≠ 0 :=
    written.string (by omega)
  have cut : (decoded.string uri).length ≤ (urlDecode false path).length := by
    rw [string]
    exact (List.takeWhile_sublist _).length_le
  have removed := written_removeDoubleDots decoded uri (by omega)
  have last := (clean_sublist (decoded.string uri)).length_le
  constructor
  · rw [removed.string (by omega), uriOf, ← string, List.takeWhile_eq_self_iff]
    intro c member
    exact decide_eq_true fun zero =>
      decoded.zero_notMem_string uri (zero ▸ (clean_sublist _).subset member)
  · intro address outside
    rw [removed.outside address (by rw [List.length_append, List.length_singleton]; omega)]
    exact written.outside address (by rw [List.length_append, List.length_singleton]; omega)

/-- A target is its path, and the query string behind a question mark if there is one. -/
theorem target_cases (target : Str) :
    target.findIdx? (fun c => c = 63) = none ∧ 63 ∉ target ∧ pathOf target = target ∨
      ∃ query, target.findIdx? (fun c => c = 63) = some (pathOf target).length ∧
        target = pathOf target ++ 63 :: query := by
  induction target with
  | nil => exact Or.inl ⟨rfl, List.not_mem_nil, rfl⟩
  | cons c target ih =>
    by_cases here : c = 63
    · subst here
      exact Or.inr ⟨target, rfl, rfl⟩
    · have path : pathOf (c :: target) = c :: pathOf target :=
        List.takeWhile_cons_of_pos (decide_eq_true here)
      rw [List.findIdx?_cons, if_neg (by simpa using here), path]
      rcases ih with ⟨none, absent, same⟩ | ⟨query, found, split⟩
      · refine Or.inl ⟨by rw [none]; rfl, ?_, by rw [same]⟩
        rw [List.mem_cons, not_or]
        exact ⟨Ne.symm here, absent⟩
      · refine Or.inr ⟨query, by rw [found]; rfl, ?_⟩
        rw [List.cons_append, ← split]

/-- What `handle_request` leaves of a target: the URI, the bytes around the path, and the query
string behind the question mark. -/
structure Handled (memory : ByteMemory capacity) (uri : ℕ) (target : Str)
    (result : Option ℕ × ByteMemory capacity) : Prop where
  string : result.2.string uri = uriOf (pathOf target)
  frame : ∀ address, address < uri ∨ uri + (pathOf target).length < address →
    result.2.load address = memory.load address
  query : match result.1 with
    | none => 63 ∉ target
    | some start => target = pathOf target ++ 63 :: result.2.string start

theorem handled_decodeUri (memory : ByteMemory capacity) (uri : ℕ) {target : Str}
    (text : memory.string uri = target) (inside : uri + target.length < capacity) :
    Handled memory uri target (decodeUri memory uri) := by
  rcases target_cases target with ⟨none, absent, same⟩ | ⟨query, found, split⟩
  · obtain ⟨string, frame⟩ := decode_path memory uri text inside
    rw [decodeUri, text, none]
    dsimp only [Option.map_none]
    rw [text]
    exact ⟨by rw [same]; exact string, by rw [same]; exact frame, absent⟩
  · -- the question mark becomes the end of the path
    obtain ⟨path, behind⟩ := ByteMemory.read_of_string_eq (text.trans split)
    have length := congrArg List.length split
    rw [List.length_append, List.length_cons] at length
    have cut : (memory.store (uri + (pathOf target).length) 0).string uri = pathOf target := by
      have kept : (memory.store (uri + (pathOf target).length) 0).read uri (pathOf target).length =
          pathOf target :=
        (ByteMemory.read_congr fun address lower upper =>
          ByteMemory.load_store_of_ne _ _ upper.ne).trans path
      have plain : 0 ∉ pathOf target := fun zero =>
        memory.zero_notMem_string uri (text ▸ (List.takeWhile_sublist _).subset zero)
      rw [ByteMemory.string_of_read (kept.symm ▸ plain)
        (ByteMemory.load_store_self _ _ (by omega)), kept]
    have question : memory.load (uri + (pathOf target).length) ≠ 0 := fun zero => by
      rw [ByteMemory.string_eq_nil zero] at behind
      cases behind
    rw [ByteMemory.string_eq_cons question] at behind
    obtain ⟨string, unchanged⟩ := decode_path _ uri cut (by omega)
    rw [decodeUri, text, found]
    dsimp only [Option.map_some]
    rw [cut]
    have frame (address : ℕ) (apart : address < uri ∨ uri + (pathOf target).length < address) :=
      (unchanged address apart).trans (ByteMemory.load_store_of_ne memory 0 (by omega))
    refine ⟨string, frame, ?_⟩
    dsimp only
    rw [ByteMemory.string_congr fun address lower => frame address (Or.inr lower),
      (List.cons.inj behind).2]
    exact split

/-- The URI that a request is handled with: the path of its target, without the percent encoding,
up to a zero, and then without repeated slashes and double dots behind slashes. However it is
encoded, no double dot is left behind a slash. No byte outside of the path and its end changes, so
the query string is there as it was. -/
theorem decodeUri_safe (memory : ByteMemory capacity) (uri : ℕ)
    (inside : uri + (memory.string uri).length < capacity) :
    let target := memory.string uri
    let result := decodeUri memory uri
    result.2.string uri = uriOf (pathOf target) ∧ Safe (result.2.string uri) ∧
      (∀ address, address < uri ∨ uri + (pathOf target).length < address →
        result.2.load address = memory.load address) ∧
      match result.1 with
      | none => 63 ∉ target
      | some start => target = pathOf target ++ 63 :: result.2.string start := by
  obtain ⟨string, frame, query⟩ := handled_decodeUri memory uri rfl inside
  exact ⟨string, string ▸ safe_clean _, frame, query⟩

theorem decodeUri_climbing :
    let memory := bufferOf (.ofLiteral "/a/%2e./b?c=/..")
    let result := decodeUri memory 0
    result.2.string 0 = uriOf (pathOf (memory.string 0)) ∧ Safe (result.2.string 0) ∧
      (∀ address, address < 0 ∨ 0 + (pathOf (memory.string 0)).length < address →
        result.2.load address = memory.load address) ∧
      match result.1 with
      | none => 63 ∉ memory.string 0
      | some start => memory.string 0 = pathOf (memory.string 0) ++ 63 :: result.2.string start :=
  decodeUri_safe (bufferOf (.ofLiteral "/a/%2e./b?c=/..")) 0 (by decide)

/-- A request for any percent encoding of a safe path is handled with this path. -/
theorem decodeUri_encoded {text encoded query : Str} (safe : Safe text) (plain : 0 ∉ text)
    (encodes : Encodes false text encoded) (noQuestion : 63 ∉ encoded)
    (behind : query = [] ∨ query.head? = some 63) (memory : ByteMemory capacity) (uri : ℕ)
    (target : memory.string uri = encoded ++ query)
    (inside : uri + (encoded ++ query).length < capacity) :
    (decodeUri memory uri).2.string uri = text := by
  have path : pathOf (encoded ++ query) = encoded := by
    have none (c : UInt8) (member : c ∈ encoded) : decide (c ≠ 63) = true :=
      decide_eq_true fun question => noQuestion (question ▸ member)
    have stop : query.takeWhile (fun c => c ≠ 63) = [] := by
      rcases behind with rfl | question
      · rfl
      · cases query with
        | nil => rfl
        | cons c query =>
          have same : c = 63 := Option.some.inj question
          exact List.takeWhile_cons_of_neg (by simp [same])
    rw [pathOf, List.takeWhile_append_of_pos none, stop, List.append_nil]
  have whole : text.takeWhile (fun c => c ≠ 0) = text :=
    List.takeWhile_eq_self_iff.mpr fun c member =>
      decide_eq_true fun zero => plain (zero ▸ member)
  rw [(handled_decodeUri memory uri target inside).string, path, uriOf,
    urlDecode_encoded encodes, whole, clean_eq_self_iff.mpr safe]

/-- A path with one byte encoded. -/
theorem encodes_dot : Encodes false (.ofLiteral "/a.b") (.ofLiteral "/a%2eb") :=
  .plain (by decide) nofun (.plain (by decide) nofun
    (.hex 46 false false (.plain (by decide) nofun .nil)))

theorem safe_dot : Safe (.ofLiteral "/a.b") := by
  have text : Str.ofLiteral "/a.b" = [47, 97, 46, 98] := rfl
  rw [← clean_eq_self_iff, text]
  simp [clean, skipDots, isSlash]

theorem decodeUri_dot :
    (decodeUri (bufferOf (.ofLiteral "/a%2eb?c")) 0).2.string 0 = Str.ofLiteral "/a.b" :=
  decodeUri_encoded safe_dot (by decide) encodes_dot (by decide) (Or.inr rfl)
    (bufferOf (.ofLiteral "/a%2eb?c")) 0
    (show _ = Str.ofLiteral "/a%2eb" ++ Str.ofLiteral "?c" by decide) (by decide)

end Uri

end Mongoose

end FlowRetrieval
