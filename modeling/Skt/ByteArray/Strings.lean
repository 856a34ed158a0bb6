import Skt.ByteArray.Floats

/-!
# Strings

A string is stored as its length and its bytes. The length has two, four or eight bytes,
or is a varint; `readStringVint` takes it for eight bytes. A string without bytes is read
with a `read` of nothing, which looks at the current node, and at the end of the capacity
there is none.
-/

namespace Skt

open Lib

namespace ByteArray

/-- The body of `writeStringF16` to `writeStringVint`: the length and then the bytes. -/
def writeString (writeLength : Allocator → ByteArray → ℕ → Except Fault Unit × ByteArray)
    (mem : Allocator) (a : ByteArray) (value : List UInt8) : Except Fault Unit × ByteArray :=
  match writeLength mem a value.length with
  | (.error e, a') => (.error e, a')
  | (.ok (), a') => a'.write mem value

/-- The body of `readStringF16` to `readStringVint`. -/
def readString (readLength : ByteArray → Except Fault ℕ × ByteArray) (a : ByteArray) :
    Except Fault (List UInt8) × ByteArray :=
  match readLength a with
  | (.error e, a') => (.error e, a')
  | (.ok len, a') => a'.read len

section

variable (host endian : Endian)

def writeStringF16 : Allocator → ByteArray → List UInt8 → Except Fault Unit × ByteArray :=
  writeString fun mem a size => a.writeFint16 host endian mem (Int16.ofNat size)

def writeStringF32 : Allocator → ByteArray → List UInt8 → Except Fault Unit × ByteArray :=
  writeString fun mem a size => a.writeFint32 host endian mem (Int32.ofNat size)

def writeStringF64 : Allocator → ByteArray → List UInt8 → Except Fault Unit × ByteArray :=
  writeString fun mem a size => a.writeFint64 host endian mem (Int64.ofNat size)

def readStringF16 : ByteArray → Except Fault (List UInt8) × ByteArray :=
  readString fun a => Prod.map (Except.map UInt16.toNat) id (a.readFuint16 host endian)

def readStringF32 : ByteArray → Except Fault (List UInt8) × ByteArray :=
  readString fun a => Prod.map (Except.map UInt32.toNat) id (a.readFuint32 host endian)

def readStringF64 : ByteArray → Except Fault (List UInt8) × ByteArray :=
  readString fun a => Prod.map (Except.map UInt64.toNat) id (a.readFuint64 host endian)

def readStringVint : ByteArray → Except Fault (List UInt8) × ByteArray :=
  readString fun a => Prod.map (Except.map UInt64.toNat) id (a.readFuint64 host endian)

end

def writeStringVint : Allocator → ByteArray → List UInt8 → Except Fault Unit × ByteArray :=
  writeString fun mem a size => a.writeUint64 mem (UInt64.ofNat size)

/-! ## Writing -/

theorem Stores.string {writeLength : Allocator → ByteArray → ℕ → Except Fault Unit × ByteArray}
    {enc : ℕ → List UInt8} (h : Stores writeLength enc) :
    Stores (writeString writeLength) fun s => enc s.length ++ s := by
  intro mem base a d s hwrote
  have hone := h mem base a d s.length hwrote
  unfold writeString
  generalize writeLength mem a s.length = r at hone ⊢
  obtain ⟨res, a'⟩ := r
  rcases hone with ⟨herr, hrefused⟩ | ⟨hok, hwrote'⟩
  · simp only at herr
    subst herr
    refine Or.inl ⟨rfl, hrefused.mono (Nat.le_refl _) ?_⟩
    rw [List.length_append]
    omega
  · simp only at hok
    subst hok
    rw [← List.append_assoc]
    -- the length is stored, and the refusal is for the bytes behind it
    rcases write_wrote hwrote' mem s with ⟨herr, hrefused⟩ | hdone
    · rw [List.length_append] at hrefused
      refine Or.inl ⟨herr, hrefused.mono (Nat.le_add_right _ _) ?_⟩
      rw [List.length_append, Nat.add_assoc]
    · exact Or.inr hdone

/-- The capacity is the base size, or less than a node more than is used. -/
def Tight (a : ByteArray) : Prop :=
  Placed a ∧ (a.capacity = a.baseSize ∨ a.capacity < a.size + a.baseSize)

theorem extend_capacity (mem : Allocator) : ∀ (k : ℕ) (f : Flat),
    (f.extend mem k).1 = .ok () →
      (f.extend mem k).2.capacity = f.capacity + k * f.base
  | 0, f, _ => by
      rw [Flat.extend, Nat.zero_mul, Nat.add_zero]
  | k + 1, f, hok => by
      unfold Flat.extend at hok ⊢
      cases hg : mem.grant (f.capacity + f.base) with
      | none =>
          rw [hg] at hok
          cases hok
      | some junk =>
          rw [hg] at hok
          dsimp only at hok ⊢
          rw [extend_capacity mem k _ hok]
          simp only [Flat.capacity, List.length_append, List.length_map, List.length_range]
          rw [Nat.succ_mul]
          omega

theorem flat_write_frame {f : Flat} (hb : 0 < f.base) (mem : Allocator) {d : List UInt8}
    (hok : (f.write mem d).1 = .ok ()) :
    (f.write mem d).2.base = f.base ∧ (f.write mem d).2.size = max f.size (f.pos + d.length) ∧
      (f.write mem d).2.capacity = f.capacity + f.need d.length * f.base := by
  obtain ⟨more, hmore⟩ := Flat.extend_grows mem (f.need d.length) f
  have hcapacity := extend_capacity mem (f.need d.length) f
  have hfits := Flat.need_fits hb d.length
  unfold Flat.write Flat.reserve at hok ⊢
  generalize f.extend mem (f.need d.length) = r at hok hmore hcapacity ⊢
  obtain ⟨res, f'⟩ := r
  cases res with
  | error e => cases hok
  | ok u =>
      have hcap := hcapacity rfl
      simp only at hmore hcap ⊢
      subst hmore
      refine ⟨rfl, rfl, ?_⟩
      rw [Flat.capacity, length_overlay]
      · exact hcap
      · have hlen : (f.cells ++ more).length = f.capacity + f.need d.length * f.base := hcap
        show f.pos + d.length ≤ (f.cells ++ more).length
        omega

/-- Growing stops as soon as there is room. -/
theorem need_least {f : Flat} {n : ℕ} (h : f.need n ≠ 0) :
    f.capacity + f.need n * f.base < f.pos + n + f.base := by
  obtain ⟨k, hk⟩ := Nat.exists_eq_succ_of_ne_zero h
  have hlt := Flat.lt_of_lt_need (hk ▸ Nat.lt_succ_self k)
  rw [hk, Nat.succ_mul]
  omega

theorem write_tight {mem : Allocator} {a a' : ByteArray} {buf : List UInt8} (h : Tight a)
    (hwrite : a.write mem buf = (.ok (), a')) : Tight a' ∧ a'.baseSize = a.baseSize := by
  obtain ⟨hpl, htight⟩ := h
  obtain ⟨hflat, hpl'⟩ := write_spec hpl mem buf
  have hframe := flat_write_frame (f := a.flat) (d := buf) hpl.base_pos mem
  rw [hflat, hwrite] at hframe
  obtain ⟨hbase, hsize, hcap⟩ := hframe rfl
  rw [hwrite] at hpl'
  have hpl'' := hpl' fun hne => (nomatch hne)
  rw [hpl''.length_cells, hpl.length_cells] at hcap
  simp only [flat_base, flat_size, flat_pos] at hbase hsize hcap
  refine ⟨⟨hpl'', ?_⟩, hbase⟩
  rw [hbase, hsize, hcap]
  by_cases hneed : a.flat.need buf.length = 0
  · rw [hneed]
    omega
  · have hleast := need_least hneed
    rw [hpl.length_cells] at hleast
    simp only [flat_base, flat_pos] at hleast
    omega

/-- What every write keeps holds after a sequence of them. -/
theorem writeEach_keeps {α : Type} {P : ByteArray → Prop}
    {write : Allocator → ByteArray → α → Except Fault Unit × ByteArray}
    (h : ∀ mem a x a', P a → write mem a x = (.ok (), a') → P a') :
    ∀ (xs : List (Allocator × α)) (a a' : ByteArray), P a →
      writeEach write a xs = (.ok (), a') → P a'
  | [], a, a', hP, hwrite => by
      cases hwrite
      exact hP
  | (mem, x) :: xs, a, a', hP, hwrite => by
      rw [writeEach] at hwrite
      cases hone : write mem a x with
      | mk res a₁ =>
          rw [hone] at hwrite
          cases res with
          | error e => cases hwrite
          | ok u => exact writeEach_keeps h xs a₁ a' (h mem a x a₁ hP hone) hwrite

theorem writeString_keeps {P : ByteArray → Prop}
    {writeLength : Allocator → ByteArray → ℕ → Except Fault Unit × ByteArray}
    (hlength : ∀ mem a n a', P a → writeLength mem a n = (.ok (), a') → P a')
    (hwrite : ∀ mem a buf a', P a → a.write mem buf = (.ok (), a') → P a') (mem : Allocator)
    (a : ByteArray) (s : List UInt8) (a' : ByteArray) (hP : P a)
    (h : writeString writeLength mem a s = (.ok (), a')) : P a' := by
  rw [writeString] at h
  cases hone : writeLength mem a s.length with
  | mk res a₁ =>
      rw [hone] at h
      cases res with
      | error e => cases h
      | ok u => exact hwrite mem a₁ s a' (hlength mem a _ a₁ hP hone) h

/-- If the array is just as large as it has to be, all of it is used just if what is
stored fills whole nodes. -/
theorem Tight.full_iff {a : ByteArray} (h : Tight a) (hsize : 0 < a.size) :
    a.size = a.capacity ↔ a.baseSize ∣ a.size := by
  obtain ⟨hpl, htight⟩ := h
  have hdvd : a.baseSize ∣ a.capacity := ⟨a.nodes.length, by
    rw [← hpl.nodes_capacity, Nat.mul_comm]⟩
  have hle := hpl.size_le
  constructor
  · rintro hfull
    rw [hfull]
    exact hdvd
  · intro hdiv
    rcases htight with hone | hlt
    · have := Nat.le_of_dvd hsize hdiv
      omega
    · have hrest := Nat.eq_zero_of_dvd_of_lt (Nat.dvd_sub hdvd hdiv) (by omega)
      omega

/-! ## Reading -/

/-- The call leaves the size and the capacity as they are. -/
def Frames {α : Type} (f : ByteArray → Except Fault α × ByteArray) : Prop :=
  ∀ a r a', f a = (r, a') → a'.size = a.size ∧ a'.capacity = a.capacity

theorem read_frame (n : ℕ) (a : ByteArray) :
    (a.read n).2.size = a.size ∧ (a.read n).2.capacity = a.capacity := by
  rw [ByteArray.read]
  by_cases hout : a.getReadSize < n
  · rw [if_pos hout]
    exact ⟨rfl, rfl⟩
  · rw [if_neg hout]
    generalize readLoop a.fromCur (a.position % a.baseSize) n = r
    rcases r with _ | ⟨bytes, moved⟩
    · exact ⟨rfl, rfl⟩
    · exact ⟨rfl, rfl⟩

theorem frames_read (n : ℕ) : Frames fun a => a.read n := by
  intro a r a' h
  have hframe := read_frame n a
  dsimp only at h
  rw [h] at hframe
  exact hframe

theorem Frames.map {α β : Type} {f : ByteArray → Except Fault α × ByteArray} (h : Frames f)
    (g : α → β) : Frames fun a => Prod.map (Except.map g) id (f a) := by
  intro a r a' heq
  dsimp only at heq
  cases hf : f a with
  | mk res a₁ =>
      rw [hf] at heq
      cases heq
      exact h a res a₁ hf

/-- A string is read, unless it is empty and the last thing in an array that is full. -/
theorem readString_step {readLength : ByteArray → Except Fault ℕ × ByteArray} {d s : List UInt8}
    (hreads : Reads readLength d s.length) (hframes : Frames readLength) {a : ByteArray}
    (hpl : Placed a) {rest : List UInt8} (h : a.flat.toString = d ++ (s ++ rest)) :
    ∃ a', readString readLength a =
        (if s = [] ∧ rest = [] ∧ a.size = a.capacity then .error .nullDeref else .ok s, a') ∧
      Placed a' ∧ a'.flat.toString = rest ∧ a'.size = a.size ∧ a'.capacity = a.capacity := by
  obtain ⟨a₁, hlength, hpl₁, hleft⟩ := hreads a _ hpl h
  obtain ⟨hsize, hcap⟩ := hframes a _ _ hlength
  unfold readString
  rw [hlength]
  dsimp only
  by_cases hs : s = []
  · subst hs
    rw [List.nil_append] at hleft
    have hlen := Flat.toString_length (f := a₁.flat) hpl₁.position_le
      (by rw [hpl₁.length_cells]; exact hpl₁.size_le)
    have hlen : rest.length = a₁.size - a₁.position := hleft ▸ hlen
    have hend : a₁.position = a₁.capacity ↔ rest = [] ∧ a.size = a.capacity := by
      have hle := hpl₁.position_le
      have hle' := hpl₁.size_le
      rw [← List.length_eq_zero_iff, ← hsize, ← hcap]
      omega
    refine ⟨a₁, ?_, hpl₁, hleft, hsize, hcap⟩
    rw [List.length_nil, read_zero hpl₁]
    simp only [hend, true_and]
  · obtain ⟨a₂, hread, hpl₂, hleft₂⟩ :=
      reads_read (List.length_pos_of_ne_nil hs) a₁ rest hpl₁ hleft
    dsimp only at hread
    have hframe := frames_read s.length a₁ _ _ hread
    refine ⟨a₂, ?_, hpl₂, hleft₂, hframe.1.trans hsize, hframe.2.trans hcap⟩
    rw [hread, if_neg fun h => hs h.1]

theorem flatMap_strings_eq_nil {enc : ℕ → List UInt8} (hne : ∀ n, enc n ≠ [])
    {ss : List (List UInt8)} : (ss.flatMap fun s => enc s.length ++ s) = [] ↔ ss = [] := by
  rw [List.flatMap_eq_nil_iff]
  constructor
  · intro hall
    refine List.eq_nil_iff_forall_not_mem.mpr fun t ht => hne t.length ?_
    exact (List.append_eq_nil_iff.mp (hall t ht)).1
  · rintro rfl t ht
    cases ht

/-- Strings are read one after the other, unless the last is empty and the array is full.
The induction is on the strings. -/
theorem readEach_strings {readLength : ByteArray → Except Fault ℕ × ByteArray}
    (enc : ℕ → List UInt8) (hframes : Frames readLength) (hne : ∀ n, enc n ≠ []) :
    ∀ (ss : List (List UInt8)) (a : ByteArray),
      (∀ s ∈ ss, Reads readLength (enc s.length) s.length) → Placed a →
      a.flat.toString = (ss.flatMap fun s => enc s.length ++ s) →
      (readEach (readString readLength) ss.length a).1 =
        if ss.getLast? = some [] ∧ a.size = a.capacity then .error .nullDeref else .ok ss
  | [], a, _, _, _ => by
      rw [if_neg fun h => by cases h.1]
      rfl
  | s :: ss, a, hreads, hpl, hleft => by
      rw [List.flatMap_cons, List.append_assoc] at hleft
      obtain ⟨a', hread, hpl', hleft', hsize, hcap⟩ :=
        readString_step (hreads s List.mem_cons_self) hframes hpl hleft
      simp only [flatMap_strings_eq_nil hne] at hread
      rw [List.length_cons, readEach_succ, hread]
      by_cases hlast : s = [] ∧ ss = [] ∧ a.size = a.capacity
      · obtain ⟨rfl, rfl, hfull⟩ := hlast
        simp [hfull]
      · rw [if_neg hlast]
        dsimp only [Prod.map]
        rw [readEach_strings enc hframes hne ss a'
          (fun t ht => hreads t (List.mem_cons_of_mem s ht)) hpl' hleft', hsize, hcap]
        cases ss with
        | nil =>
            have hnil : ¬(([] : List (List UInt8)).getLast? = some [] ∧ a.size = a.capacity) :=
              fun h => by cases h.1
            have hone : ¬([s].getLast? = some [] ∧ a.size = a.capacity) :=
              fun h => hlast ⟨Option.some.inj h.1, rfl, h.2⟩
            rw [if_neg hnil, if_neg hone]
            rfl
        | cons t ss =>
            rw [List.getLast?_cons_cons]
            split <;> rfl

/-! ## Lengths of fixed width -/

theorem bytes_mod (o : Endian) (k v : ℕ) : o.bytes k (v % 256 ^ k) = o.bytes k v := by
  have hle : leBytes k (v % 256 ^ k) = leBytes k v := by
    have h := leBytes_ofLeBytes (leBytes k v)
    rw [length_leBytes, ofLeBytes_leBytes] at h
    exact h
  cases o with
  | little => exact hle
  | big => rw [Endian.bytes, Endian.bytes, ← reverse_leBytes, ← reverse_leBytes, hle]

inductive Width
  | F16
  | F32
  | F64
  deriving DecidableEq, Repr

namespace Width

def bytes : Width → ℕ
  | F16 => 2
  | F32 => 4
  | F64 => 8

def write (host endian : Endian) :
    Width → Allocator → ByteArray → List UInt8 → Except Fault Unit × ByteArray
  | F16 => writeStringF16 host endian
  | F32 => writeStringF32 host endian
  | F64 => writeStringF64 host endian

def read (host endian : Endian) : Width → ByteArray → Except Fault (List UInt8) × ByteArray
  | F16 => readStringF16 host endian
  | F32 => readStringF32 host endian
  | F64 => readStringF64 host endian

/-- The lengths that have a place in the bytes there are for them. -/
def Fits : Width → ℕ → Prop
  | F16, n => n < 2 ^ 16
  | F32, n => n < 2 ^ 32
  | F64, _ => True

theorem bytes_pos (k : Width) : 0 < k.bytes := by cases k <;> decide

theorem bytes_ne_nil (k : Width) (endian : Endian) (n : ℕ) : endian.bytes k.bytes n ≠ [] := by
  rw [← List.length_pos_iff, Endian.length_bytes]
  exact k.bytes_pos

variable (host endian : Endian)

/-- A length is stored in as many bytes as it has, whatever does not fit cut off. -/
theorem stores_writeF (k : ℕ) {cast : ℕ → ℕ} (hcast : ∀ n, cast n = n % 256 ^ k) :
    Stores (fun mem a size => a.writeF host endian mem k (cast size)) (endian.bytes k) := by
  apply stores_of_write
  intro mem a n
  rw [writeF, bytes_swap, hcast, bytes_mod]

theorem stores (k : Width) :
    Stores (k.write host endian) fun s => endian.bytes k.bytes s.length ++ s := by
  cases k with
  | F16 => exact (stores_writeF host endian 2 fun _ => UInt16.toNat_ofNat').string
  | F32 => exact (stores_writeF host endian 4 fun _ => UInt32.toNat_ofNat').string
  | F64 => exact (stores_writeF host endian 8 fun _ => UInt64.toNat_ofNat').string

/-- The read of a length. -/
def readLength : Width → ByteArray → Except Fault ℕ × ByteArray
  | F16 => fun a => Prod.map (Except.map UInt16.toNat) id (a.readFuint16 host endian)
  | F32 => fun a => Prod.map (Except.map UInt32.toNat) id (a.readFuint32 host endian)
  | F64 => fun a => Prod.map (Except.map UInt64.toNat) id (a.readFuint64 host endian)

theorem read_eq (k : Width) : k.read host endian = readString (k.readLength host endian) := by
  cases k <;> rfl

theorem frames_readLength (k : Width) : Frames (k.readLength host endian) := by
  cases k with
  | F16 => exact ((((frames_read 2).map host.value).map _).map UInt16.ofNat).map UInt16.toNat
  | F32 => exact ((((frames_read 4).map host.value).map _).map UInt32.ofNat).map UInt32.toNat
  | F64 => exact ((((frames_read 8).map host.value).map _).map UInt64.ofNat).map UInt64.toNat

theorem reads_readLength (k : Width) {n : ℕ} (hn : n < 256 ^ k.bytes) :
    Reads (k.readLength host endian) (endian.bytes k.bytes n) n := by
  cases k with
  | F16 =>
      have hlt : n < 2 ^ 16 := by simpa [bytes] using hn
      have h := (reads_fixed host endian (k := 2) (by decide) hn UInt16.ofNat rfl).map
        UInt16.toNat
      rw [UInt16.toNat_ofNat_of_lt' hlt] at h
      exact h
  | F32 =>
      have hlt : n < 2 ^ 32 := by simpa [bytes] using hn
      have h := (reads_fixed host endian (k := 4) (by decide) hn UInt32.ofNat rfl).map
        UInt32.toNat
      rw [UInt32.toNat_ofNat_of_lt' hlt] at h
      exact h
  | F64 =>
      have hlt : n < 2 ^ 64 := by simpa [bytes] using hn
      have h := (reads_fixed host endian (k := 8) (by decide) hn UInt64.ofNat rfl).map
        UInt64.toNat
      rw [UInt64.toNat_ofNat_of_lt' hlt] at h
      exact h

theorem write_keeps (k : Width) {base : ℕ} (mem : Allocator) (a : ByteArray) (s : List UInt8)
    (a' : ByteArray) (h : Tight a ∧ a.baseSize = base)
    (hwrite : k.write host endian mem a s = (.ok (), a')) : Tight a' ∧ a'.baseSize = base := by
  have hkeeps : ∀ (mem : Allocator) (a : ByteArray) (buf : List UInt8) (a' : ByteArray),
      Tight a ∧ a.baseSize = base → a.write mem buf = (.ok (), a') →
      Tight a' ∧ a'.baseSize = base := by
    intro mem a buf a' h hwrite
    obtain ⟨htight, hbase⟩ := write_tight h.1 hwrite
    exact ⟨htight, hbase.trans h.2⟩
  cases k with
  | F16 => exact writeString_keeps (fun mem a n a' => hkeeps mem a _ a') hkeeps mem a s a' h hwrite
  | F32 => exact writeString_keeps (fun mem a n a' => hkeeps mem a _ a') hkeeps mem a s a' h hwrite
  | F64 => exact writeString_keeps (fun mem a n a' => hkeeps mem a _ a') hkeeps mem a s a' h hwrite

theorem lt_of_fits (k : Width) {n : ℕ} (h : k.Fits n) (hn : n ≤ 2 ^ 47) :
    n < 256 ^ k.bytes := by
  cases k with
  | F16 => simpa [bytes, Fits] using h
  | F32 => simpa [bytes, Fits] using h
  | F64 =>
      have hpow : (256 : ℕ) ^ F64.bytes = 2 ^ 64 := by norm_num [bytes]
      omega

end Width

/-! ## The round trips -/

theorem setPosition_zero_frame {b c : ByteArray} (hb : Placed b) (hc : Placed c)
    (hset : b.setPosition 0 = (.ok (), c)) : c.size = b.size ∧ c.capacity = b.capacity := by
  obtain ⟨hflat, -⟩ := setPosition_spec hb 0
  rw [hset, Flat.setPosition, if_neg (Nat.not_lt_zero _), Prod.mk.injEq] at hflat
  obtain ⟨-, hflat⟩ := hflat
  have hsize := congrArg Flat.size hflat
  have hcap := congrArg Flat.capacity hflat
  rw [hc.length_cells] at hcap
  simp only [flat_size, Nat.max_zero] at hsize
  exact ⟨hsize.symm, hcap.symm.trans hb.length_cells⟩

theorem length_flatMap_strings (enc : ℕ → List UInt8) (ss : List (Allocator × List UInt8)) :
    (ss.flatMap fun s => enc s.2.length ++ s.2).length =
      (ss.map fun s => (enc s.2.length).length + s.2.length).sum := by
  rw [List.length_flatMap]
  congr 1
  exact List.map_congr_left fun s _ => List.length_append

theorem length_le_of_mem (enc : ℕ → List UInt8) {ss : List (Allocator × List UInt8)}
    {s : Allocator × List UInt8} (hs : s ∈ ss) :
    s.2.length ≤ (ss.flatMap fun s => enc s.2.length ++ s.2).length := by
  rw [length_flatMap_strings]
  have hle := List.single_le_sum (fun x _ => Nat.zero_le x) _
    (List.mem_map_of_mem (f := fun s => (enc s.2.length).length + s.2.length) hs)
  omega

/-- **Strings with a length of fixed width.** For every base size and byte order: strings
with lengths that have a place are read back, and no null node is looked at, just if the
last of them is not empty or what is stored does not fill whole nodes. -/
theorem strings_roundTrip_iff {base : ℕ} (hb : 1 ≤ base) {mem : Allocator} {a : ByteArray}
    (hnew : ByteArray.new mem base = .ok a) (host endian : Endian) (k : Width)
    (ss : List (Allocator × List UInt8)) (hfits : ∀ s ∈ ss, k.Fits s.2.length) :
    ((writeEach (k.write host endian) a ss).1 = .error .badAlloc ∧
      RefusedIn (fun s => endian.bytes k.bytes s.length ++ s) base 0 ss) ∨
    ∃ b c, writeEach (k.write host endian) a ss = (.ok (), b) ∧
      b.setPosition 0 = (.ok (), c) ∧
      ((readEach (k.read host endian) ss.length c).1 = .ok (ss.map Prod.snd) ↔
        ¬((ss.map Prod.snd).getLast? = some [] ∧
          base ∣ (ss.map fun s => k.bytes + s.2.length).sum)) := by
  rcases (k.stores host endian).fresh hb hnew ss with
    hbad | ⟨b, c, hwrite, hset, hwrote, hc, hleft⟩
  · exact Or.inl hbad
  · refine Or.inr ⟨b, c, hwrite, hset, ?_⟩
    obtain ⟨hpl, hbase, -, -, hcap⟩ := new_spec hb hnew
    have htight : Tight b ∧ b.baseSize = base :=
      writeEach_keeps (k.write_keeps host endian) ss a b
        ⟨⟨hpl, Or.inl (hcap.trans hbase.symm)⟩, hbase⟩ hwrite
    have hframe := setPosition_zero_frame hwrote.placed hc hset
    have hsize := hwrote.size_eq
    have hlt : ∀ s ∈ ss.map Prod.snd,
        Reads (k.readLength host endian) (endian.bytes k.bytes s.length) s.length := by
      intro s hs
      obtain ⟨w, hw, rfl⟩ := List.mem_map.mp hs
      refine k.reads_readLength host endian (k.lt_of_fits (hfits w hw) ?_)
      have hle := length_le_of_mem (endian.bytes k.bytes) hw
      have hbound := hwrote.placed.size_le.trans hwrote.placed.bounded
      omega
    have hread := readEach_strings (endian.bytes k.bytes) (k.frames_readLength host endian)
      (k.bytes_ne_nil endian) (ss.map Prod.snd) c hlt hc (by rw [hleft, List.flatMap_map])
    have htotal : b.size = (ss.map fun s => k.bytes + s.2.length).sum := by
      rw [hsize, length_flatMap_strings (endian.bytes k.bytes)]
      simp only [Endian.length_bytes]
    -- There is a length in the array then, so it is full just if its nodes are.
    have hfull : (ss.map Prod.snd).getLast? = some [] →
        (b.size = b.capacity ↔ base ∣ (ss.map fun s => k.bytes + s.2.length).sum) := by
      intro hlast
      rw [← htotal, ← htight.2]
      refine htight.1.full_iff ?_
      obtain ⟨w, hw, -⟩ := List.mem_map.mp (List.mem_of_getLast? hlast)
      have hpos := k.bytes_pos
      have hle := List.single_le_sum (fun x _ => Nat.zero_le x) _
        (List.mem_map_of_mem (f := fun s => k.bytes + s.2.length) hw)
      omega
    rw [List.length_map] at hread
    rw [k.read_eq, hread, hframe.1, hframe.2]
    rw [← and_congr_right hfull]
    split
    case isTrue h => exact iff_of_false (fun h => by cases h) (not_not.mpr h)
    case isFalse h => exact iff_of_true rfl h

/-- Two strings in nodes of two bytes, the second of which ends inside a node. -/
theorem strings_roundTrip_iff_sample :
    ByteArray.new wholeSpace 2 = .ok freshSample ∧
    ∃ b c, writeEach (Width.F16.write .little .big) freshSample
        [(wholeSpace, []), (wholeSpace, [7])] = (.ok (), b) ∧
      b.setPosition 0 = (.ok (), c) ∧
      (readEach (Width.F16.read .little .big) 2 c).1 = .ok [[], [7]] := by
  refine ⟨new_freshSample, ?_⟩
  rcases strings_roundTrip_iff (by decide) new_freshSample .little .big .F16
    [(wholeSpace, []), (wholeSpace, [7])] (by unfold Width.Fits; decide) with
    ⟨hbad, -⟩ | ⟨b, c, hwrite, hset, hiff⟩
  · exact absurd hbad (by decide)
  · exact ⟨b, c, hwrite, hset, hiff.mpr (by decide)⟩

/-- The length of an empty string fills the only node. -/
theorem strings_nullDeref :
    (readEach (Width.F16.read .little .big) 1
      ((writeEach (Width.F16.write .little .big) freshSample
        [(wholeSpace, [])]).2.setPosition 0).2).1 = .error .nullDeref := by
  decide

/-! ## Lengths as varints -/

theorem stores_writeStringVint :
    Stores writeStringVint fun s => groups (UInt64.ofNat s.length).toNat ++ s := by
  have hlength : Stores (fun mem a size => a.writeUint64 mem (UInt64.ofNat size))
      fun n => groups (UInt64.ofNat n).toNat :=
    stores_of_write fun _ a n => congrArg (a.write _) (varint_eq (UInt64.ofNat n).toNat)
  exact hlength.string

/-- The length is taken from eight bytes. -/
theorem takes_length (host endian : Endian) :
    Takes (fun a => Prod.map (Except.map UInt64.toNat) id (a.readFuint64 host endian))
      fun _ d => d.length = 8 := by
  have htakes : Takes (fun a => a.readF host endian 8) fun _ d => d.length = 8 := by
    refine (takes_readF host endian 8).mono fun v d h => ?_
    rw [h.2, Endian.length_bytes]
  refine ((htakes.map UInt64.ofNat).map UInt64.toNat).mono ?_
  rintro _ d ⟨_, -, _, -, hd⟩
  exact hd

theorem Takes.string {readLength : ByteArray → Except Fault ℕ × ByteArray} {n : ℕ}
    (h : Takes readLength fun _ d => d.length = n) :
    Takes (readString readLength) fun s d => d.length = n + s.length := by
  intro a a' s hpl hread
  rw [readString] at hread
  cases hlength : readLength a with
  | mk res a₁ =>
      rw [hlength] at hread
      cases res with
      | error e => cases hread
      | ok len =>
          obtain ⟨hpl₁, d, hd, hn⟩ := h a a₁ len hpl hlength
          obtain ⟨hpl₂, d', hd', hs, -⟩ := takes_read len a₁ a' s hpl₁ hread
          refine ⟨hpl₂, d ++ d', ?_, ?_⟩
          · rw [hd, hd', List.append_assoc]
          · dsimp only
            rw [List.length_append, hn, hs]

theorem length_flatten_of_forall₂ {ss ds : List (List UInt8)}
    (h : List.Forall₂ (fun s d => d.length = 8 + s.length) ss ds) :
    ds.flatten.length = (ss.map fun s => 8 + s.length).sum := by
  induction h with
  | nil => rfl
  | cons hd _ ih => rw [List.flatten_cons, List.length_append, hd, ih, List.map_cons, List.sum_cons]

/-- Seven bytes at most for each length and eight for each read do not come out even. -/
theorem sum_lengths_lt {ss : List (Allocator × List UInt8)} (hne : ss ≠ [])
    (hlen : ∀ s ∈ ss, s.2.length ≤ 2 ^ 47) :
    (ss.map fun s => (groups (UInt64.ofNat s.2.length).toNat).length + s.2.length).sum <
      (ss.map fun s => 8 + s.2.length).sum := by
  refine List.sum_lt_sum_of_ne_nil hne _ _ fun s hs => ?_
  have hle := hlen s hs
  have hgroups : (groups (UInt64.ofNat s.2.length).toNat).length ≤ 6 + 1 := by
    have hlt : s.2.length < 2 ^ 64 := by omega
    apply length_groups_le
    rw [UInt64.toNat_ofNat_of_lt' hlt]
    omega
  omega

/-- **Strings with a varint length.** For every base size and byte order: strings written
with `writeStringVint` are read back with `readStringVint`, with nothing left over, just
if there are none. -/
theorem stringsVint_roundTrip_iff {base : ℕ} (hb : 1 ≤ base) {mem : Allocator} {a : ByteArray}
    (hnew : ByteArray.new mem base = .ok a) (host endian : Endian)
    (ss : List (Allocator × List UInt8)) :
    ((writeEach writeStringVint a ss).1 = .error .badAlloc ∧
      RefusedIn (fun s => groups (UInt64.ofNat s.length).toNat ++ s) base 0 ss) ∨
    ∃ b c, writeEach writeStringVint a ss = (.ok (), b) ∧ b.setPosition 0 = (.ok (), c) ∧
      ((∃ d, readEach (readStringVint host endian) ss.length c = (.ok (ss.map Prod.snd), d) ∧
        d.getReadSize = 0) ↔ ss = []) := by
  rcases stores_writeStringVint.fresh hb hnew ss with
    hbad | ⟨b, c, hwrite, hset, hwrote, hc, hleft⟩
  · exact Or.inl hbad
  · refine Or.inr ⟨b, c, hwrite, hset, ?_, ?_⟩
    · rintro ⟨d, hread, hnone⟩
      by_contra hne
      obtain ⟨hd, ds, hds, hall⟩ := (takes_length host endian).string.each _ c d _ hc hread
      rw [(toString_nil_iff hd).mpr hnone, List.append_nil, hleft] at hds
      have hlen := congrArg List.length hds
      rw [length_flatMap_strings fun n => groups (UInt64.ofNat n).toNat,
        length_flatten_of_forall₂ hall, List.map_map] at hlen
      refine absurd hlen (Nat.ne_of_lt (sum_lengths_lt hne fun s hs => ?_))
      have hle := length_le_of_mem (fun n => groups (UInt64.ofNat n).toNat) hs
      have hsize := hwrote.size_eq
      have hbound := hwrote.placed.size_le.trans hwrote.placed.bounded
      omega
    · rintro rfl
      exact ⟨c, rfl, (toString_nil_iff hc).mp hleft⟩

/-- No string at all comes back as none. -/
theorem stringsVint_roundTrip_iff_none :
    ByteArray.new wholeSpace 2 = .ok freshSample ∧
    ∃ b c d, writeEach writeStringVint freshSample [] = (.ok (), b) ∧
      b.setPosition 0 = (.ok (), c) ∧
      readEach (readStringVint .little .big) 0 c = (.ok [], d) ∧ d.getReadSize = 0 := by
  refine ⟨new_freshSample, ?_⟩
  rcases stringsVint_roundTrip_iff (by decide) new_freshSample .little .big [] with
    ⟨-, hrefused⟩ | ⟨b, c, hwrite, hset, hiff⟩
  · cases hrefused
  · obtain ⟨d, hread, hnone⟩ := hiff.mpr rfl
    exact ⟨b, c, d, hwrite, hset, hread, hnone⟩

/-- A string of one byte takes two bytes, and eight are asked for. -/
theorem stringsVint_short :
    (readEach (readStringVint .little .big) 1
      ((writeEach writeStringVint freshSample [(wholeSpace, [7])]).2.setPosition 0).2).1 =
        .error .outOfRange := by
  have hlength : varint (UInt64.ofNat ([7] : List UInt8).length).toNat = [1] := by
    rw [varint_eq, groups_of_lt (by decide)]
    rfl
  rw [writeEach, writeStringVint, writeString, writeUint64, hlength]
  decide

end ByteArray

end Skt
