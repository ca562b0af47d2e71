import LineBasic.Memory
import Mathlib.Data.List.Induction

namespace LineBasic

/-!
# Histories of the memory

The memory is settled by what has been done with it: at each address it has the byte that was last
written there, and zero where none has been written since it was last wiped.

* `MemoryAccess` -- what is done with a memory: a call of a routine, with its result, or a wipe;
* `MemoryAccess.decides?`, `lastWritten` -- what the last write at an address left there, in terms
  of accesses alone;
* `Malformed` -- the calls that are to fail;
* `Answers` -- the result that a call should have, in terms of the accesses before it;
* `Memory.Serves` -- what becomes of a memory that serves some accesses one after the other;
* `Memory.Holds`, `Memory.Serves.holds` -- the bytes of a memory are those that were last written;
* `Memory.Serves.answers` -- the calls that a memory serves have the results that they should have;
* `Memory.Serves.changed` -- only wipes and writes change a memory.
-/

/-- Something that is done with a memory. -/
inductive MemoryAccess where
  /-- A routine is called, with a result. -/
  | call (arguments : List Int16) (result : Except Cause Int16)
  /-- All bytes are made zero. -/
  | wipe
  deriving DecidableEq

/-- What an access leaves at an address: the value of a write there that succeeds, or zero after a
    wipe.  Other accesses leave alone what is there.  Addresses that differ by a multiple of 2^16
    are the same. -/
def MemoryAccess.decides? (x : Int16) : MemoryAccess → Option Int16
  | call _ (.error _) => none
  | call (routine :: y :: v :: _) (.ok _) =>
    if routine = 280 ∧ y.toInt % 65536 = x.toInt % 65536 then some v else none
  | call _ (.ok _) => none
  | wipe => some 0

/-- The value that was last written at an address, or zero if none has been since the memory was
    last wiped. -/
def lastWritten (past : List MemoryAccess) (x : Int16) : Int16 :=
  (past.reverse.findSome? (·.decides? x)).getD 0

/-- Whether a call is to fail: its routine is none of the two, or it has no address, or it writes a
    value that is missing or no byte. -/
def Malformed (arguments : List Int16) : Prop :=
  (arguments.head? ≠ some 276 ∧ arguments.head? ≠ some 280) ∨ arguments[1]? = none ∨
    (arguments.head? = some 280 ∧ ∀ v, arguments[2]? = some v → v.toInt < 0 ∨ 255 < v.toInt)

/-- Whether a call has the result that it should have after some accesses. -/
structure Answers (past : List MemoryAccess) (arguments : List Int16)
    (result : Except Cause Int16) : Prop where
  /-- It fails exactly if it is malformed. -/
  fails : (∃ cause, result = .error cause) ↔ Malformed arguments
  /-- A read that succeeds gives the value that was last written at its address, and this is a
      byte. -/
  read : ∀ x more n, arguments = 276 :: x :: more → result = .ok n →
    n = lastWritten past x ∧ 0 ≤ n.toInt ∧ n.toInt ≤ 255
  /-- A write that succeeds gives the value that it writes. -/
  write : ∀ y v more n, arguments = 280 :: y :: v :: more → result = .ok n → n = v

/-- One more access decides about an address, or leaves it as it was. -/
theorem lastWritten_append_singleton (past : List MemoryAccess) (a : MemoryAccess) (x : Int16) :
    lastWritten (past ++ [a]) x = (a.decides? x).getD (lastWritten past x) := by
  rw [lastWritten, lastWritten, List.reverse_append]
  cases hdecides : a.decides? x <;> simp [hdecides]

namespace Memory

variable {m m' : Memory} {past as : List MemoryAccess} {arguments : List Int16}

/-- What becomes of a memory that serves some accesses one after the other. -/
inductive Serves : Memory → List MemoryAccess → Memory → Prop
  | nil {m : Memory} : Serves m [] m
  /-- A call that succeeds leaves the memory that it gives. -/
  | done {m m₁ m₂ : Memory} {arguments : List Int16} {n : Int16} {as : List MemoryAccess}
      (hcall : m.call arguments = .ok (n, m₁)) (h : Serves m₁ as m₂) :
      Serves m (.call arguments (.ok n) :: as) m₂
  /-- A call that fails leaves the memory as it is. -/
  | failed {m m₂ : Memory} {arguments : List Int16} {cause : Cause} {as : List MemoryAccess}
      (hcall : m.call arguments = .error cause) (h : Serves m as m₂) :
      Serves m (.call arguments (.error cause) :: as) m₂
  | wiped {m m₂ : Memory} {as : List MemoryAccess} (h : Serves empty as m₂) :
      Serves m (.wipe :: as) m₂

/-- A memory serves accesses one part after the other. -/
theorem Serves.append {m₁ m₂ : Memory} {bs : List MemoryAccess} (h : Serves m as m₁)
    (h' : Serves m₁ bs m₂) :
    Serves m (as ++ bs) m₂ := by
  induction h with
  | nil => exact h'
  | done hcall _ ih => exact .done hcall (ih h')
  | failed hcall _ ih => exact .failed hcall (ih h')
  | wiped _ ih => exact .wiped (ih h')

/-- Accesses in two parts are served one part after the other. -/
theorem Serves.split {m₂ : Memory} {bs : List MemoryAccess} (h : Serves m (as ++ bs) m₂) :
    ∃ m₁, Serves m as m₁ ∧ Serves m₁ bs m₂ := by
  induction as generalizing m with
  | nil => exact ⟨m, .nil, h⟩
  | cons a as ih =>
    cases h with
    | done hcall h =>
      obtain ⟨m₁, hfirst, hsecond⟩ := ih h
      exact ⟨m₁, .done hcall hfirst, hsecond⟩
    | failed hcall h =>
      obtain ⟨m₁, hfirst, hsecond⟩ := ih h
      exact ⟨m₁, .failed hcall hfirst, hsecond⟩
    | wiped h =>
      obtain ⟨m₁, hfirst, hsecond⟩ := ih h
      exact ⟨m₁, .wiped hfirst, hsecond⟩

/-! ### Calls -/

/-- The values that are no bytes. -/
theorem noByte_iff {v : Int16} : (v < 0 ∨ 256 ≤ v) ↔ v.toInt < 0 ∨ 255 < v.toInt := by
  rw [Int16.lt_iff_toInt_lt, Int16.le_iff_toInt_le]
  exact Iff.rfl

/-- What a call comes to, in each case. -/
inductive Called (m : Memory) : List Int16 → Except Cause (Int16 × Memory) → Prop
  | failed {arguments : List Int16} {cause : Cause} (h : Malformed arguments) :
      Called m arguments (.error cause)
  | read {x : Int16} {more : List Int16} :
      Called m (276 :: x :: more) (.ok (.ofNat (m.peek x).toNat, m))
  | written {y v : Int16} {more : List Int16} (hlow : 0 ≤ v.toInt) (hhigh : v.toInt ≤ 255) :
      Called m (280 :: y :: v :: more) (.ok (v, m.poke y (.ofNat v.toNatClampNeg)))

/-- A call comes to one of the cases. -/
theorem call_cases (m : Memory) (arguments : List Int16) :
    Called m arguments (m.call arguments) := by
  unfold call
  cases arguments with
  | nil => exact .failed (.inl ⟨nofun, nofun⟩)
  -- Arguments are checked from left to right; each call is decided by the first that is bad.
  | cons routine others =>
    dsimp only [List.headD_cons, List.tail_cons]
    split
    next hroutine =>
      refine .failed (.inl ⟨fun h => hroutine.1 ?_, fun h => hroutine.2 ?_⟩)
      · exact Option.some.inj h
      · exact Option.some.inj h
    next hroutine =>
      cases others with
      | nil => exact .failed (.inr (.inl rfl))
      | cons address others =>
        dsimp only
        split
        next hread =>
          subst hread
          exact .read
        next hread =>
          have hwrite : routine = 280 := by_contra fun h => hroutine ⟨hread, h⟩
          subst hwrite
          cases others with
          | nil => exact .failed (.inr (.inr ⟨rfl, nofun⟩))
          | cons value more =>
            dsimp only
            split
            next hvalue =>
              refine .failed (.inr (.inr ⟨rfl, fun v hv => ?_⟩))
              obtain rfl : value = v := Option.some.inj hv
              rwa [noByte_iff] at hvalue
            next hvalue =>
              rw [noByte_iff] at hvalue
              exact .written (by omega) (by omega)

/-! ### Last writes -/

/-- Whether the bytes of a memory are those that were last written. -/
def Holds (m : Memory) (past : List MemoryAccess) : Prop :=
  ∀ x, .ofNat (m.peek x).toNat = lastWritten past x

/-- Where nothing has been written all bytes are zero. -/
theorem holds_empty : empty.Holds [] := fun x => by rw [peek_empty]; rfl

/-- Of the addresses of a memory no two differ by a multiple of 2^16. -/
theorem congruent_iff {x y : Int16} : y.toInt % 65536 = x.toInt % 65536 ↔ x = y := by
  have hx : -32768 ≤ x.toInt ∧ x.toInt < 32768 := ⟨Int16.le_toInt x, Int16.toInt_lt x⟩
  have hy : -32768 ≤ y.toInt ∧ y.toInt < 32768 := ⟨Int16.le_toInt y, Int16.toInt_lt y⟩
  rw [← Int16.toInt_inj]
  omega

/-- A byte is read as the value that was written. -/
theorem ofNat_byte {v : Int16} (hlow : 0 ≤ v.toInt) (hhigh : v.toInt ≤ 255) :
    Int16.ofNat (UInt8.ofNat v.toNatClampNeg).toNat = v := by
  have hnat : (v.toNatClampNeg : Int) = v.toInt := by
    rw [← Int16.toNat_toInt, Int.toNat_of_nonneg hlow]
  have hlt : v.toNatClampNeg < 256 := by omega
  have hbyte : (UInt8.ofNat v.toNatClampNeg).toNat = v.toNatClampNeg := UInt8.toNat_ofNat_of_lt' hlt
  rw [hbyte, ← Int16.toInt_inj, Int16.toInt_ofNat_of_lt (by omega), hnat]

/-- A read decides about no address. -/
theorem decides?_read (x y : Int16) (more : List Int16) (result : Except Cause Int16) :
    (MemoryAccess.call (276 :: y :: more) result).decides? x = none := by
  cases result with
  | error => rfl
  | ok => cases more <;> rfl

/-- After a call that succeeds a memory holds what was last written, if it did before. -/
theorem Called.holds {n : Int16} (h : Called m arguments (.ok (n, m'))) (hm : m.Holds past) :
    m'.Holds (past ++ [.call arguments (.ok n)]) := by
  intro x
  rw [lastWritten_append_singleton]
  cases h with
  | read =>
    rw [decides?_read]
    exact hm x
  | @written y v more hlow hhigh =>
    rw [peek_poke]
    by_cases hxy : x = y
    · have hdecides : (MemoryAccess.call (280 :: y :: n :: more) (.ok n)).decides? x = some n :=
        if_pos ⟨rfl, congruent_iff.2 hxy⟩
      rw [if_pos hxy, hdecides, ofNat_byte hlow hhigh]
      rfl
    · have hdecides : (MemoryAccess.call (280 :: y :: n :: more) (.ok n)).decides? x = none :=
        if_neg fun h => hxy (congruent_iff.1 h.2)
      rw [if_neg hxy, hdecides]
      exact hm x

/-- **Bytes.**  What a memory holds after some accesses is what was last written. -/
theorem Serves.holds (h : Serves m as m') (hm : m.Holds past) : m'.Holds (past ++ as) := by
  induction h generalizing past with
  | nil => simpa using hm
  | @done m m₁ m₂ arguments n as hcall _ ih =>
    have hone : m₁.Holds (past ++ [.call arguments (.ok n)]) :=
      Called.holds (hcall ▸ call_cases m arguments) hm
    rw [List.append_cons]
    exact ih hone
  | @failed m m₂ arguments cause as hcall _ ih =>
    have hone : m.Holds (past ++ [.call arguments (.error cause)]) := fun x => by
      rw [lastWritten_append_singleton]
      exact hm x
    rw [List.append_cons]
    exact ih hone
  | @wiped m m₂ as _ ih =>
    have hone : empty.Holds (past ++ [.wipe]) := fun x => by
      rw [lastWritten_append_singleton, peek_empty]
      rfl
    rw [List.append_cons]
    exact ih hone

/-- A call in a memory that holds what was last written has the result that it should have. -/
theorem Called.answers {r : Except Cause (Int16 × Memory)} (h : Called m arguments r)
    (hm : m.Holds past) :
    Answers past arguments (r.map Prod.fst) := by
  cases h with
  | failed hmalformed => exact ⟨⟨fun _ => hmalformed, fun _ => ⟨_, rfl⟩⟩, nofun, nofun⟩
  | @read x more =>
    refine ⟨⟨nofun, fun h => ?_⟩, ?_, nofun⟩
    · simp [Malformed] at h
    · rintro x' more' n harguments hn
      cases harguments
      cases hn
      have hbyte : (m.peek x).toNat < 256 := (m.peek x).toNat_lt
      rw [Int16.toInt_ofNat_of_lt (by omega)]
      exact ⟨hm x, by omega, by omega⟩
  | @written y v more hlow hhigh =>
    refine ⟨⟨nofun, fun h => ?_⟩, nofun, ?_⟩
    · simp [Malformed] at h
      omega
    · rintro y' v' more' n harguments hn
      cases harguments
      cases hn
      rfl

/-- **Results.**  The calls that a memory serves have the results that they should have. -/
theorem Serves.answers {result : Except Cause Int16} {bs : List MemoryAccess}
    (h : Serves m (as ++ .call arguments result :: bs) m') (hm : m.Holds past) :
    Answers (past ++ as) arguments result := by
  obtain ⟨m₁, hfirst, hsecond⟩ := h.split
  have hanswers := Called.answers (call_cases m₁ arguments) (hfirst.holds hm)
  cases hsecond with
  | done hcall => rwa [hcall] at hanswers
  | failed hcall => rwa [hcall] at hanswers

/-- Only a wipe and a write that succeeds change a memory. -/
theorem Serves.changed (h : Serves m as m') (hne : m' ≠ m) :
    ∃ a ∈ as, a = .wipe ∨ ∃ y v more, a = .call (280 :: y :: v :: more) (.ok v) := by
  induction h with
  | nil => exact absurd rfl hne
  | @done m m₁ m₂ arguments n as hcall _ ih =>
    have hcalled := call_cases m arguments
    rw [hcall] at hcalled
    cases hcalled with
    | read =>
      obtain ⟨a, ha, hchanges⟩ := ih hne
      exact ⟨a, List.mem_cons_of_mem _ ha, hchanges⟩
    | written => exact ⟨_, List.mem_cons_self, .inr ⟨_, _, _, rfl⟩⟩
  | failed _ _ ih =>
    obtain ⟨a, ha, hchanges⟩ := ih hne
    exact ⟨a, List.mem_cons_of_mem _ ha, hchanges⟩
  | wiped => exact ⟨_, List.mem_cons_self, .inl rfl⟩

end Memory

end LineBasic
