import HereEmu.Basic

/-!
# Commands to the host in the terminal's input

`HostCommandFilter` takes commands out of what is read from the terminal: the
byte `0x01` escapes the next one, and an escaped `x` asks for a shutdown. The
input comes in chunks and is filtered in place, each chunk with what it keeps
moved to its front; whether the next byte is escaped is carried on to the next.
-/

namespace HereEmu

open List

structure HostCommandFilter where
  escapePending : Bool := false

namespace HostCommandFilter

/-- The variables of the loop. -/
structure Pass extends HostCommandFilter where
  input : List (BitVec 8)
  outputLen : Nat
  shutdownRequested : Bool

/-- `input[output_len] = byte; output_len += 1`. -/
def Pass.keep (p : Pass) (byte : BitVec 8) : Rust Pass :=
  if p.outputLen < p.input.length then
    .ok { p with input := p.input.set p.outputLen byte, outputLen := p.outputLen + 1 }
  else .error .outOfBounds

def filterAt (p : Pass) (index : Nat) : Rust Pass :=
  match p.input[index]? with
  | none => .error .outOfBounds
  | some byte =>
    if p.escapePending then
      let p := { p with escapePending := false }
      if byte = 0x78#8 then .ok { p with shutdownRequested := true } else p.keep byte
    else if byte = 0x01#8 then .ok { p with escapePending := true }
    else p.keep byte

def filter (f : HostCommandFilter) (input : List (BitVec 8)) : Rust Pass :=
  (range input.length).foldlM filterAt ⟨f, input, 0, false⟩

/-- One chunk after the other. What is forwarded of each is its front. -/
def filterChunks : HostCommandFilter → List (List (BitVec 8)) → Rust (List (BitVec 8) × Bool)
  | _, [] => .ok ([], false)
  | f, chunk :: chunks => do
    let p ← f.filter chunk
    let (forwarded, shutdown) ← filterChunks p.toHostCommandFilter chunks
    return (p.input.take p.outputLen ++ forwarded, p.shutdownRequested || shutdown)

/-! ## The bytes from left to right -/

/-- What is forwarded, whether a shutdown is asked for, and whether the byte after
the end is escaped. -/
def scan : Bool → List (BitVec 8) → List (BitVec 8) × Bool × Bool
  | escaped, [] => ([], false, escaped)
  | true, byte :: rest =>
    let (forwarded, shutdown, escaped) := scan false rest
    if byte = 0x78#8 then (forwarded, true, escaped) else (byte :: forwarded, shutdown, escaped)
  | false, byte :: rest =>
    if byte = 0x01#8 then scan true rest
    else
      let (forwarded, shutdown, escaped) := scan false rest
      (byte :: forwarded, shutdown, escaped)

theorem scan_append (escaped : Bool) (s t : List (BitVec 8)) : scan escaped (s ++ t) =
    ((scan escaped s).1 ++ (scan (scan escaped s).2.2 t).1,
      (scan escaped s).2.1 || (scan (scan escaped s).2.2 t).2.1,
      (scan (scan escaped s).2.2 t).2.2) := by
  induction s generalizing escaped with
  | nil => cases escaped <;> rfl
  | cons byte s ih =>
    cases escaped with
    | true =>
      simp only [cons_append, scan, ih]
      split <;> rfl
    | false =>
      simp only [cons_append, scan, ih]
      split <;> rfl

/-- The byte read is written back at or before its place, where only bytes that
were read before are lost. -/
theorem keep_eq (f : HostCommandFilter) (front junk rest : List (BitVec 8)) (byte : BitVec 8)
    (shutdown : Bool) : ∃ junk', junk'.length = junk.length ∧
      Pass.keep ⟨f, front ++ junk ++ byte :: rest, front.length, shutdown⟩ byte =
        .ok ⟨f, (front ++ [byte]) ++ junk' ++ rest, front.length + 1, shutdown⟩ := by
  have hroom : front.length < (front ++ junk ++ byte :: rest).length := by
    rw [length_append, length_append, length_cons]
    omega
  unfold Pass.keep
  rw [if_pos hroom]
  cases junk with
  | nil => exact ⟨[], rfl, by simp⟩
  | cons j junk => exact ⟨junk ++ [byte], by simp, by simp⟩

/-- One turn of the loop is the scan of one byte. -/
theorem filterAt_eq (escaped shutdown : Bool) (front junk rest : List (BitVec 8)) (byte : BitVec 8) :
    let (forwarded, asked, escaped') := scan escaped [byte]
    ∃ junk', (front ++ forwarded).length + junk'.length = front.length + junk.length + 1 ∧
      filterAt ⟨⟨escaped⟩, front ++ junk ++ byte :: rest, front.length, shutdown⟩
        (front.length + junk.length) = .ok ⟨⟨escaped'⟩, front ++ forwarded ++ junk' ++ rest,
          (front ++ forwarded).length, shutdown || asked⟩ := by
  have hread : (front ++ junk ++ byte :: rest)[front.length + junk.length]? = some byte := by
    rw [getElem?_append_right (by simp)]
    simp
  obtain ⟨junk₁, hlen, hkeep⟩ := keep_eq ⟨false⟩ front junk rest byte shutdown
  unfold filterAt
  simp only [hread]
  -- a byte that is dropped stays behind the front
  cases escaped with
  | true =>
    by_cases hx : byte = 0x78#8
    · exact ⟨junk ++ [byte], by simp [scan, hx]; omega, by simp [scan, hx]⟩
    · exact ⟨junk₁, by simp [scan, hx]; omega, by simpa [scan, hx] using hkeep⟩
  | false =>
    by_cases hx : byte = 0x01#8
    · exact ⟨junk ++ [byte], by simp [scan, hx]; omega, by simp [scan, hx]⟩
    · exact ⟨junk₁, by simp [scan, hx]; omega, by simpa [scan, hx] using hkeep⟩

/-- From the first byte not read yet on, with the bytes kept so far in front of it. -/
theorem filter_from (escaped shutdown : Bool) (front junk rest : List (BitVec 8)) :
    ∃ junk', (range' (front.length + junk.length) rest.length).foldlM filterAt
        ⟨⟨escaped⟩, front ++ junk ++ rest, front.length, shutdown⟩ =
      .ok ⟨⟨(scan escaped rest).2.2⟩, front ++ (scan escaped rest).1 ++ junk',
        (front ++ (scan escaped rest).1).length, shutdown || (scan escaped rest).2.1⟩ := by
  induction rest generalizing front junk escaped shutdown with
  | nil => exact ⟨junk, by cases escaped <;> simp [scan, pure, Except.pure]⟩
  | cons byte rest ih =>
    obtain ⟨junk₁, hlen, hstep⟩ := filterAt_eq escaped shutdown front junk rest byte
    obtain ⟨junk', hrest⟩ := ih (scan escaped [byte]).2.2 (shutdown || (scan escaped [byte]).2.1)
      (front ++ (scan escaped [byte]).1) junk₁
    refine ⟨junk', ?_⟩
    rw [hlen] at hrest
    rw [length_cons, range'_succ, foldlM_cons, hstep,
      ← singleton_append (x := byte) (l := rest), scan_append, ← append_assoc, ← Bool.or_assoc]
    exact hrest

theorem filterChunks_eq (escaped : Bool) (chunks : List (List (BitVec 8))) :
    filterChunks ⟨escaped⟩ chunks =
      .ok ((scan escaped chunks.flatten).1, (scan escaped chunks.flatten).2.1) := by
  induction chunks generalizing escaped with
  | nil => cases escaped <;> rfl
  | cons chunk chunks ih =>
    obtain ⟨junk, hpass⟩ := filter_from escaped false [] [] chunk
    simp only [nil_append, length_nil, Nat.add_zero, ← range_eq_range'] at hpass
    rw [filterChunks, filter, hpass, flatten_cons, scan_append]
    show (filterChunks ⟨_⟩ chunks >>= _) = _
    rw [ih]
    simp [bind, Except.bind, pure, Except.pure]

/-- However the input comes in chunks, it is filtered as in one, and as the scan says. -/
theorem filter_independent_of_chunks (f : HostCommandFilter) (chunks : List (List (BitVec 8))) :
    let spec := scan f.escapePending chunks.flatten
    f.filterChunks chunks = .ok (spec.1, spec.2.1) ∧
      f.filterChunks [chunks.flatten] = .ok (spec.1, spec.2.1) := by
  have hone := filterChunks_eq f.escapePending [chunks.flatten]
  rw [flatten_singleton] at hone
  exact ⟨filterChunks_eq f.escapePending chunks, hone⟩

end HostCommandFilter

end HereEmu
