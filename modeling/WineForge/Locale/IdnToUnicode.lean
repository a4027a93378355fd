import WineForge.Library.Bootstring
import WineForge.Locale.NormTable

/-!
# `RtlIdnToUnicode`

The function with the checks that it does not make: the signed numbers of the decoding loop do not
overflow, the indexes into the label buffer and the source are in range, and the code points are
below `0x110000`. The first violation is the result. Until then all numbers are natural.
-/

namespace WineForge.Locale

open Library

/-- What can go wrong. -/
inductive IdnFault
  | overflow
  | index
  | codePoint
  | read
  deriving DecidableEq, Repr

/-- The status codes; `table` is one of `load_norm_table`. -/
inductive IdnStatus
  | success
  | invalidParameter
  | invalidIdnNormalization
  | bufferTooSmall
  | table (status : ℕ)
  deriving DecidableEq, Repr

def intLimit : ℕ := 2 ^ 31

/-- A number that is stored in an `int`. -/
def checked (v : ℕ) : Except IdnFault ℕ :=
  if v < intLimit then .ok v else .error .overflow

def validCodePoint (ch : ℕ) : Bool :=
  decide (ch ≤ 0x10ffff)

def idnAllowUnassigned (flags : UInt32) : Bool := flags &&& 1 ≠ 0

def idnUseStd3AsciiRules (flags : UInt32) : Bool := flags &&& 2 ≠ 0

def punycode : Bootstring where
  base := 36
  tmin := 1
  tmax := 26
  skew := 38
  damp := 700
  tmin_le := by decide
  tmax_lt := by decide
  tmin_lt := by decide

/-- `src[i]`. -/
def readSource (src : List UInt16) (i : ℤ) : Except IdnFault UInt16 :=
  if 0 ≤ i then
    match src[i.toNat]? with
    | some ch => .ok ch
    | none => .error .read
  else .error .read

def isLower (ch : UInt16) : Bool := ch ≥ 0x61 && ch ≤ 0x7a
def isUpper (ch : UInt16) : Bool := ch ≥ 0x41 && ch ≤ 0x5a
def isDecimal (ch : UInt16) : Bool := ch ≥ 0x30 && ch ≤ 0x39

def digitOf (ch : UInt16) : Option ℕ :=
  if isLower ch then some (ch.toNat - 0x61)
  else if isUpper ch then some (ch.toNat - 0x41)
  else if isDecimal ch then some (ch.toNat - 0x30 + 26)
  else none

/-- The loop that finds the end of a label: the position, the character there or the last one, and
the last delimiter. There is no result where a character is not allowed. -/
def scanLabel (flags : UInt32) (srclen : ℕ) : List UInt16 → ℕ → UInt16 → ℕ → Option (ℕ × UInt16 × ℕ)
  | [], i, ch, delim => some (i, ch, delim)
  | ch :: rest, i, _, delim =>
    if ch > 0x7f ∨ i ≠ srclen - 1 ∧ ch = 0 then none
    else if ch = 0 ∨ ch = 0x2e then some (i, ch, delim)
    else
      let delim := if ch = 0x2d then i else delim
      if !idnUseStd3AsciiRules flags then scanLabel flags srclen rest (i + 1) ch delim
      else if isLower ch || isUpper ch || isDecimal ch || ch = 0x2d then
        scanLabel flags srclen rest (i + 1) ch delim
      else none

/-- The loop over the digits of an integer; there is no result where a digit is missing. -/
def decodeInteger (bias : ℕ) : List UInt16 → ℕ → ℕ → ℕ → Except IdnFault (Option (ℕ × List UInt16))
  | [], _, _, _ => .ok none
  | ch :: rest, k, w, pos =>
    match digitOf ch with
    | none => .ok none
    | some digit => do
      let pos ← checked (pos + digit * w)
      if digit < punycode.threshold bias k then .ok (some (pos, rest))
      else
        let w ← checked (w * (36 - punycode.threshold bias k))
        decodeInteger bias rest (k + 36) w pos

/-- The variables of the decoding loop. -/
structure DecodeState where
  n : ℕ
  bias : ℕ
  pos : ℕ
  buffer : List ℕ

/-- The part of the decoding loop behind the digits. There is no result where the buffer is full. -/
def insertCodePoint (s : DecodeState) (pos : ℕ) : Except IdnFault (Option DecodeState) := do
  let buflen := s.buffer.length
  let delta ← checked ((pos - s.pos) / (if s.pos = 0 then 700 else 2))
  let delta ← checked (delta + delta / (buflen + 1))
  let r := punycode.adaptLoop delta 0
  let n ← checked (s.n + pos / (buflen + 1))
  let pos := pos % (buflen + 1)
  if buflen ≥ 64 - 1 then .ok none
  else if pos + 1 + (buflen - pos) > 64 ∨ pos > buflen then .error .index
  else
    .ok (some
      { n
        bias := r.2 + 36 * r.1 / (r.1 + 38)
        pos := pos + 1
        buffer := s.buffer.insertIdx pos n })

lemma checked_bind {α : Type} (v : ℕ) (f : ℕ → Except IdnFault α) :
    (checked v >>= f) = if v < intLimit then f v else .error .overflow := by
  unfold checked
  split
  · rfl
  · rfl

lemma decodeInteger_shorter {bias k w pos pos' : ℕ} {ds rest : List UInt16}
    (h : decodeInteger bias ds k w pos = .ok (some (pos', rest))) : rest.length < ds.length := by
  induction ds generalizing k w pos with
  | nil => nomatch h
  | cons ch ds ih =>
    rw [decodeInteger] at h
    split at h
    · nomatch h
    rw [checked_bind] at h
    split at h
    · split at h
      · cases h
        exact Nat.lt_succ_self _
      rw [checked_bind] at h
      split at h
      · exact Nat.lt_succ_of_lt (ih h)
      · nomatch h
    · nomatch h

/-- The decoding loop: the label buffer, or no result where the label is not valid. -/
def decodeLoop (ds : List UInt16) (s : DecodeState) : Except IdnFault (Option (List ℕ)) :=
  match ds with
  | [] => .ok (some s.buffer)
  | ch :: rest =>
    match _h : decodeInteger s.bias (ch :: rest) 36 1 s.pos with
    | .error fault => .error fault
    | .ok none => .ok none
    | .ok (some (pos, rest')) =>
      match insertCodePoint s pos with
      | .error fault => .error fault
      | .ok none => .ok none
      | .ok (some s') => decodeLoop rest' s'
termination_by ds.length
decreasing_by exact decodeInteger_shorter _h

/-- The two switches of `check_invalid_chars`; `prev` is the code point in front. -/
def invalidChar (info : NormTable) (flags : UInt32) (prev : Option ℕ) (ch : ℕ) : Bool :=
  let first :=
    if ch = 0x200c ∨ ch = 0x200d then
      match prev with
      | none => true
      | some prev => decide (getCombiningClass info prev ≠ 9)
    else if ch = 0x2260 ∨ ch = 0x226e ∨ ch = 0x226f then idnUseStd3AsciiRules flags
    else false
  let props := getCharProps info ch
  let second :=
    if props = 0xbf then true
    else if props = 0xff then !decide (ch ≥ hangulSBase ∧ ch < hangulSBase + 0x2c00)
    else if props = 0x7f then !idnAllowUnassigned flags
    else false
  first || second

def checkInvalidCharsLoop (info : NormTable) (flags : UInt32) : Option ℕ → List ℕ → Bool
  | _, [] => false
  | prev, ch :: rest =>
    invalidChar info flags prev ch || checkInvalidCharsLoop info flags (some ch) rest

def checkInvalidChars (info : NormTable) (flags : UInt32) (buffer : List ℕ) : Bool :=
  checkInvalidCharsLoop info flags none buffer ||
    idnUseStd3AsciiRules flags && (buffer.head? = some 0x2d || buffer.getLast? = some 0x2d)

/-- The number of units that the result has, and what has been written. -/
structure IdnOutput where
  out : ℕ
  dst : List UInt16

/-- The destination takes the units if its length is 0, which only counts them, or large enough. -/
def emit (dstlen : ℤ) (o : IdnOutput) (units : List UInt16) : Bool × IdnOutput :=
  if dstlen = 0 then (true, { o with out := o.out + units.length })
  else if o.out + units.length ≤ dstlen then (true, ⟨o.out + units.length, o.dst ++ units⟩)
  else (false, o)

def emitCodePoints (dstlen : ℤ) (o : IdnOutput) : List ℕ → Bool × IdnOutput
  | [] => (true, o)
  | ch :: rest =>
    let r := emit dstlen o (putUtf16 ch)
    if r.1 then emitCodePoints dstlen r.2 rest else r

/-- How a turn of the loop over the labels ends: the function returns, or goes on. -/
inductive LabelResult
  | done (status : IdnStatus) (o : IdnOutput)
  | next (start : ℕ) (o : IdnOutput)

def hyphenAtEnd (flags : UInt32) (src : List UInt16) (start stop : ℕ) : Except IdnFault Bool :=
  if idnUseStd3AsciiRules flags then do
    let first ← readSource src start
    if first = 0x2d then .ok true
    else do
      let last ← readSource src (stop - 1)
      .ok (decide (last = 0x2d))
  else .ok false

def copyLabel (flags : UInt32) (src : List UInt16) (dstlen : ℤ) (start stop : ℕ) (o : IdnOutput) :
    Except IdnFault LabelResult :=
  if stop - start > 63 then .ok (.done .invalidIdnNormalization o)
  else
    match hyphenAtEnd flags src start stop with
    | .error fault => .error fault
    | .ok true => .ok (.done .invalidIdnNormalization o)
    | .ok false =>
      let next := if stop < src.length then stop + 1 else stop
      let r := emit dstlen o ((src.take next).drop start)
      if r.1 then .ok (.next next r.2) else .ok (.done .bufferTooSmall r.2)

def writeLabel (info : NormTable) (flags : UInt32) (src : List UInt16) (dstlen : ℤ) (stop : ℕ)
    (o : IdnOutput) (buffer : List ℕ) : Except IdnFault LabelResult :=
  if !buffer.all validCodePoint then .error .codePoint
  else if checkInvalidChars info flags buffer then .ok (.done .invalidIdnNormalization o)
  else
    let r := emitCodePoints dstlen o buffer
    if !r.1 then .ok (.done .bufferTooSmall r.2)
    else if r.2.out - o.out > 63 then .ok (.done .invalidIdnNormalization r.2)
    else
      let r' := if stop < src.length then emit dstlen r.2 ((src.drop stop).take 1) else (true, r.2)
      if r'.1 then .ok (.next (stop + 1) r'.2) else .ok (.done .bufferTooSmall r'.2)

def literals (src : List UInt16) (start delim : ℕ) : List UInt16 :=
  ((src.take (if delim = start + 3 then delim + 1 else delim)).drop (start + 4)).take 64

def labelDigits (src : List UInt16) (start stop delim : ℕ) : List UInt16 :=
  let buflen := (literals src start delim).length
  (src.take stop).drop (start + 4 + buflen + if buflen = 0 then 0 else 1)

def decodeLabel (info : NormTable) (flags : UInt32) (src : List UInt16) (dstlen : ℤ)
    (start stop delim : ℕ) (o : IdnOutput) : Except IdnFault LabelResult :=
  match decodeLoop (labelDigits src start stop delim)
      ⟨0x80, 72, 0, (literals src start delim).map UInt16.toNat⟩ with
  | .error fault => .error fault
  | .ok none => .ok (.done .invalidIdnNormalization o)
  | .ok (some buffer) => writeLabel info flags src dstlen stop o buffer

/-- The label begins with `xn--`. -/
def hasAcePrefix (src : List UInt16) (start stop : ℕ) : Bool :=
  decide (stop - start ≥ 4 ∧ (src.getD start 0 = 0x78 ∨ src.getD start 0 = 0x58) ∧
    (src.getD (start + 1) 0 = 0x6e ∨ src.getD (start + 1) 0 = 0x4e) ∧
    src.getD (start + 2) 0 = 0x2d ∧ src.getD (start + 3) 0 = 0x2d)

def idnLabel (info : NormTable) (flags : UInt32) (src : List UInt16) (dstlen : ℤ) (start : ℕ)
    (o : IdnOutput) : Except IdnFault LabelResult :=
  match scanLabel flags src.length (src.drop start) start 0 0 with
  | none => .ok (.done .invalidIdnNormalization o)
  | some (stop, ch, delim) =>
    if start = stop ∧ ch ≠ 0 then .ok (.done .invalidIdnNormalization o)
    else if hasAcePrefix src start stop then decodeLabel info flags src dstlen start stop delim o
    else copyLabel flags src dstlen start stop o

def idnLoop (info : NormTable) (flags : UInt32) (src : List UInt16) (dstlen : ℤ) :
    ℕ → ℕ → IdnOutput → Except IdnFault (Option (IdnStatus × IdnOutput))
  | 0, _, _ => .ok none
  | fuel + 1, start, o =>
    if start < src.length then
      match idnLabel info flags src dstlen start o with
      | .error fault => .error fault
      | .ok (.done status o') => .ok (some (status, o'))
      | .ok (.next start' o') => idnLoop info flags src dstlen fuel start' o'
    else .ok (some (.success, o))

/-- The source as far as it may be read: for the length -1 up to its null character. -/
def sourceUnits (src : List UInt16) (srclen : ℤ) : List UInt16 :=
  if srclen = -1 then src.takeWhile (fun ch => decide (ch ≠ 0)) ++ [0]
  else src.take srclen.toNat

/-- `RtlIdnToUnicode`: the status, what is written and the new length. -/
def rtlIdnToUnicode (table : Except ℕ NormTable) (flags : UInt32) (src : Option (List UInt16))
    (srclen dstlen : ℤ) : Except IdnFault (Option (IdnStatus × List UInt16 × ℤ)) :=
  match src with
  | none => .ok (some (.invalidParameter, [], dstlen))
  | some src =>
    if srclen < -1 then .ok (some (.invalidParameter, [], dstlen))
    else
      match table with
      | .error status => .ok (some (.table status, [], dstlen))
      | .ok info =>
        let units := sourceUnits src srclen
        match idnLoop info flags units dstlen (units.length + 1) 0 ⟨0, []⟩ with
        | .error fault => .error fault
        | .ok none => .ok none
        | .ok (some (status, o)) =>
          .ok (some (status, o.dst, if status = .success then o.out else dstlen))

end WineForge.Locale
