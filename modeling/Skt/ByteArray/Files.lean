import Skt.ByteArray.Peek
import Skt.ByteArray.RoundTrip
import Skt.Lib.CString

/-!
# To a file and back

`writeToFile` writes the nodes from the cursor's on, one block for each. A block's length is
taken from the base size or from what is left, less the offset in the node, and so comes out
short where the rest starts inside a node and is shorter than one. `readFromFile` reads blocks
of its own base size and writes them.
-/

namespace Skt

open Lib Lib.CString

namespace ByteArray

/-! ## The source -/

inductive SaveFault where
  | nullDeref   -- `cur->ptr` with a null `cur`
  | outOfNode   -- bytes from outside of the node
  | badLength   -- `ofs.write` with a negative length
deriving DecidableEq

/-- The loop of `writeToFile`, and what it has the stream write. `read_size` and `pos` stay in
the range of `int64_t`; the offset in the node is an `int`. -/
def writeToFileLoop (baseSize : ℕ) : List Node → ℕ → ℕ → Except SaveFault (List UInt8)
  | [], read_size, _ => if read_size = 0 then .ok [] else .error .nullDeref
  | nd :: nds, read_size, pos =>
      if read_size = 0 then .ok []
      else
        let diff := toInt32 (pos % baseSize : ℕ)
        let len := (if baseSize < read_size then baseSize else read_size : ℕ) - diff
        if len < 0 then .error .badLength
        else if diff < 0 ∨ nd.size < diff + len then .error .outOfNode
        else
          (writeToFileLoop baseSize nds (read_size - len.toNat) (pos + len.toNat)).map
            (slice nd.ptr diff.toNat len.toNat ++ ·)

/-- `writeToFile`, to a file that can be opened. -/
def writeToFile (a : ByteArray) : Except SaveFault (List UInt8) :=
  writeToFileLoop a.baseSize a.fromCur a.getReadSize a.position

/-- What `ifs.read(buff, n)` and `gcount()` give until the end of the file is met: blocks of
`n` bytes and a shorter one, which may be empty. -/
def fileBlocks (n : ℕ) (file : List UInt8) : List (List UInt8) :=
  if 0 < n ∧ n ≤ file.length then file.take n :: fileBlocks n (file.drop n) else [file]
termination_by file.length
decreasing_by
  rw [List.length_drop]
  omega

/-- `readFromFile`, with what the allocator answers to each of its writes. -/
def readFromFile (mem : ℕ → Allocator) (a : ByteArray) (file : List UInt8) :
    Except Fault Unit × ByteArray :=
  writeEach write a ((fileBlocks a.baseSize file).zipIdx.map fun block => (mem block.2, block.1))

/-! ## Reading it back -/

theorem flatten_fileBlocks (n : ℕ) (file : List UInt8) : (fileBlocks n file).flatten = file := by
  induction file using fileBlocks.induct n with
  | case1 file hmore ih =>
      rw [fileBlocks, if_pos hmore, List.flatten_cons, ih, List.take_append_drop]
  | case2 file hlast =>
      rw [fileBlocks, if_neg hlast, List.flatten_cons, List.flatten_nil, List.append_nil]

/-- A file is read into a fresh array as it is, unless the allocator refuses. -/
theorem readFromFile_fresh {base : ℕ} (hb : 1 ≤ base) {mem : Allocator} {a : ByteArray}
    (hnew : ByteArray.new mem base = .ok a) (mems : ℕ → Allocator) (file : List UInt8) :
    (a.readFromFile mems file).1 = .error .badAlloc ∨
      ∃ b c, a.readFromFile mems file = (.ok (), b) ∧ b.setPosition 0 = (.ok (), c) ∧
        c.toString = .ok file := by
  have hstores : Stores write (fun d : List UInt8 => d) := stores_of_write fun _ _ _ => rfl
  rcases hstores.fresh hb hnew ((fileBlocks a.baseSize file).zipIdx.map
    fun block => (mems block.2, block.1)) with ⟨hbad, -⟩ | ⟨b, c, hread, hset, -, hc, hleft⟩
  · exact Or.inl hbad
  · refine Or.inr ⟨b, c, hread, hset, ?_⟩
    have hall : (((fileBlocks a.baseSize file).zipIdx.map
        fun block => (mems block.2, block.1)).flatMap fun w => w.2) = file := by
      conv_rhs => rw [← flatten_fileBlocks a.baseSize file,
        ← List.zipIdx_map_fst 0 (fileBlocks a.baseSize file)]
      rw [List.flatMap_map]
      rfl
    rw [toString_spec hc, hleft, hall]

/-! ## The blocks written -/

theorem writeToFileLoop_zero (b : ℕ) (nds : List Node) (pos : ℕ) :
    writeToFileLoop b nds 0 pos = .ok [] := by
  cases nds <;> rfl

/-- One block from offset `diff` on, where all of it is in the node. -/
theorem writeToFileLoop_block {b : ℕ} {nd : Node} {nds : List Node} {left pos : ℕ} (len : ℕ)
    (hnd : nd.size = b) (hsmall : pos % b < 2 ^ 31) (hleft : 0 < left)
    (hlen : pos % b + len = min b left) :
    writeToFileLoop b (nd :: nds) left pos =
      (writeToFileLoop b nds (left - len) (pos + len)).map
        (slice nd.ptr (pos % b) len ++ ·) := by
  have hdiff : toInt32 (pos % b : ℕ) = (pos % b : ℕ) := toInt32_of_le (by omega) (by omega)
  have hmin : (if b < left then b else left) = min b left := by
    split <;> omega
  have hsub : ((min b left : ℕ) : ℤ) - (pos % b : ℕ) = len := by omega
  rw [writeToFileLoop, if_neg hleft.ne']
  simp only [hdiff, hmin, hsub]
  rw [if_neg (by omega), if_neg (by omega), Int.toNat_natCast, Int.toNat_natCast]

/-- From the front of a node on, whole nodes and the beginning of the last one. -/
theorem writeToFileLoop_aligned {b : ℕ} (hb : 0 < b) :
    ∀ (nds : List Node) (left pos : ℕ), Sized b nds → pos % b = 0 → left ≤ nds.length * b →
      writeToFileLoop b nds left pos = .ok (slice (bytesOf nds) 0 left)
  | [], left, pos, _, _, hfits => by
      rw [List.length_nil, Nat.zero_mul, Nat.le_zero] at hfits
      rw [hfits]
      rfl
  | nd :: nds, left, pos, hs, hpos, hfits => by
      have hnd : nd.size = b := hs nd List.mem_cons_self
      have hptr : nd.ptr.length = b := hnd
      rw [List.length_cons, Nat.succ_mul] at hfits
      rcases Nat.eq_zero_or_pos left with rfl | hleft
      · rw [writeToFileLoop_zero, slice, List.take_zero]
      rw [writeToFileLoop_block (min b left) hnd (by omega) hleft (by omega), hpos,
        bytesOf_cons]
      rcases Nat.le_total left b with hle | hge
      · rw [Nat.min_eq_right hle, Nat.sub_self, writeToFileLoop_zero,
          slice_append_left (by omega)]
        exact congrArg Except.ok (List.append_nil _)
      · rw [Nat.min_eq_left hge, writeToFileLoop_aligned hb nds (left - b) (pos + b) hs.tail
          (by rw [Nat.add_mod_right, hpos]) (by omega), slice_append_cross (Nat.zero_le _) (by omega),
          hptr, Nat.sub_zero]
        rfl

/-- From inside of a node on, with at least as much left as a node has. -/
theorem writeToFileLoop_inside {b : ℕ} (hb : 0 < b) {nds : List Node} {left pos : ℕ}
    (hs : Sized b nds) (hsmall : pos % b < 2 ^ 31) (hge : b ≤ left)
    (hfits : pos % b + left ≤ nds.length * b) :
    writeToFileLoop b nds left pos = .ok (slice (bytesOf nds) (pos % b) left) := by
  have hmod := Nat.mod_lt pos hb
  cases nds with
  | nil =>
      rw [List.length_nil, Nat.zero_mul] at hfits
      omega
  | cons nd nds =>
      have hnd : nd.size = b := hs nd List.mem_cons_self
      have hptr : nd.ptr.length = b := hnd
      have hnext : (pos + (b - pos % b)) % b = 0 := by
        have hsplit := Nat.div_add_mod pos b
        have hsum : pos + (b - pos % b) = b * (pos / b + 1) := by
          rw [Nat.mul_succ]
          omega
        rw [hsum, Nat.mul_mod_right]
      rw [List.length_cons, Nat.succ_mul] at hfits
      rw [writeToFileLoop_block (b - pos % b) hnd hsmall (by omega) (by omega),
        writeToFileLoop_aligned hb nds _ _ hs.tail hnext (by omega), bytesOf_cons,
        slice_append_cross (by omega) (by omega), hptr]
      rfl

/-! ## Where it goes wrong -/

/-- Nodes of zeros give zeros. -/
theorem writeToFileLoop_zeros {b : ℕ} : ∀ {nds : List Node} {left pos : ℕ} {d : List UInt8},
    (∀ nd ∈ nds, ∀ x ∈ nd.ptr, x = 0) → writeToFileLoop b nds left pos = .ok d →
      ∀ x ∈ d, x = 0
  | [], left, pos, d, _, hloop => by
      rw [writeToFileLoop] at hloop
      split at hloop
      · cases hloop
        exact fun x hx => absurd hx List.not_mem_nil
      · cases hloop
  | nd :: nds, left, pos, d, hzero, hloop => by
      rw [writeToFileLoop] at hloop
      split at hloop
      · cases hloop
        exact fun x hx => absurd hx List.not_mem_nil
      dsimp only at hloop
      generalize toInt32 _ = diff at hloop
      generalize ((if b < left then b else left : ℕ) : ℤ) - diff = len at hloop
      split at hloop
      · cases hloop
      split at hloop
      · cases hloop
      cases hrest : writeToFileLoop b nds (left - len.toNat) (pos + len.toNat) with
      | error e =>
          rw [hrest] at hloop
          cases hloop
      | ok d' =>
          rw [hrest] at hloop
          cases hloop
          intro x hx
          rcases List.mem_append.mp hx with hx | hx
          · exact hzero nd List.mem_cons_self x (List.mem_of_mem_drop (List.mem_of_mem_take hx))
          · exact writeToFileLoop_zeros (fun nd' hnd' => hzero nd' (List.mem_cons_of_mem _ hnd'))
              hrest x hx

theorem one_mem_slice_marked {n q start k : ℕ} (hge : start ≤ q) (hlt : q < start + k)
    (hq : q < n) : 1 ∈ slice (marked n q) start k := by
  refine List.mem_of_getElem? (i := q - start) ?_
  rw [slice, List.getElem?_take_of_lt (by omega), List.getElem?_drop, Nat.add_sub_cancel' hge,
    getElem?_marked hq, if_pos rfl]

theorem zero_of_mem_slice_marked {n q start k : ℕ} (hout : start + k ≤ q) {x : UInt8}
    (hx : x ∈ slice (marked n q) start k) : x = 0 := by
  obtain ⟨i, hi⟩ := List.mem_iff_getElem?.mp hx
  rw [slice, List.getElem?_take] at hi
  split at hi
  · rw [List.getElem?_drop] at hi
    have hlt : start + i < n := by
      have := (List.getElem?_eq_some_iff.mp hi).1
      rwa [length_marked] at this
    rw [getElem?_marked hlt, if_neg (by omega)] at hi
    exact (Option.some.inj hi).symm
  · cases hi

/-- The nodes from the cursor's on, with a marked cell in the first of them. -/
theorem fromCur_marked {a : ByteArray} (h : Placed a) (hlt : a.position < a.capacity) {r : ℕ}
    (hr : r < a.baseSize)
    (hcells : a.flat.cells =
      marked a.capacity (a.position / a.baseSize * a.baseSize + r)) :
    ∃ nds, a.fromCur = ⟨marked a.baseSize r⟩ :: nds ∧ ∀ nd ∈ nds, ∀ x ∈ nd.ptr, x = 0 := by
  obtain ⟨hnodes, hlen, -, hsb, hsf⟩ := h.split hlt
  have hfits := h.fromCur_fits (n := 1) hlt hlt
  have hfront : (bytesOf a.beforeCur).length = a.position / a.baseSize * a.baseSize := by
    rw [length_bytesOf hsb, hlen]
  have hget : ∀ i x, (bytesOf a.fromCur)[i]? = some x → x = if i = r then 1 else 0 := by
    intro i x hi
    have hcell : a.flat.cells[a.position / a.baseSize * a.baseSize + i]? = some x := by
      rw [flat_cells, hnodes, bytesOf_append, List.getElem?_append_right (by omega), hfront,
        Nat.add_sub_cancel_left]
      exact hi
    have hin := (List.getElem?_eq_some_iff.mp hcell).1
    rw [hcells, length_marked] at hin
    rw [hcells, getElem?_marked hin] at hcell
    rw [← Option.some.inj hcell]
    simp only [Nat.add_left_cancel_iff]
  cases hfrom : a.fromCur with
  | nil =>
      rw [hfrom, List.length_nil, Nat.zero_mul] at hfits
      omega
  | cons nd nds =>
      rw [hfrom] at hsf hget
      have hptr : nd.ptr.length = a.baseSize := hsf nd List.mem_cons_self
      refine ⟨nds, ?_, ?_⟩
      · have hmarked : nd.ptr = marked a.baseSize r := by
          apply List.ext_getElem?
          intro i
          rcases Nat.lt_or_ge i a.baseSize with hi | hi
          · have hsome : nd.ptr[i]? = some (nd.ptr.get ⟨i, hptr ▸ hi⟩) :=
              List.getElem?_eq_getElem (hptr ▸ hi)
            have hx := hget i _ (by
              rw [bytesOf_cons, List.getElem?_append_left (hptr ▸ hi)]
              exact hsome)
            rw [hsome, hx, getElem?_marked hi]
          · rw [List.getElem?_eq_none (hptr ▸ hi),
              List.getElem?_eq_none (by rw [length_marked]; exact hi)]
        rw [← hmarked]
      · intro nd' hnd' x hx
        have hmem : x ∈ bytesOf nds := List.mem_flatMap.mpr ⟨nd', hnd', hx⟩
        obtain ⟨i, hi⟩ := List.mem_iff_getElem?.mp hmem
        have hzero := hget (a.baseSize + i) x (by
          rw [bytesOf_cons, List.getElem?_append_right (by omega), hptr,
            Nat.add_sub_cancel_left]
          exact hi)
        rw [if_neg (by omega)] at hzero
        exact hzero

/-- What is written from a marked node and zeros behind it. -/
theorem writeToFileLoop_marked {b r left pos : ℕ} {nds : List Node} {d : List UInt8}
    (hzero : ∀ nd ∈ nds, ∀ x ∈ nd.ptr, x = 0) (hleft : 0 < left)
    (hloop : writeToFileLoop b (⟨marked b r⟩ :: nds) left pos = .ok d) :
    ∃ diff len : ℕ, toInt32 (pos % b : ℕ) = diff ∧ diff + len = min b left ∧
      ∃ d', d = slice (marked b r) diff len ++ d' ∧ ∀ x ∈ d', x = 0 := by
  have hmin : (if b < left then b else left) = min b left := by
    split <;> omega
  rw [writeToFileLoop, if_neg hleft.ne'] at hloop
  simp only [hmin] at hloop
  obtain ⟨diff, hdiff⟩ : ∃ diff, toInt32 (pos % b : ℕ) = diff := ⟨_, rfl⟩
  obtain ⟨len, hlen⟩ : ∃ len, ((min b left : ℕ) : ℤ) - diff = len := ⟨_, rfl⟩
  rw [hdiff, hlen] at hloop
  split at hloop
  · cases hloop
  split at hloop
  · cases hloop
  rename_i hpos hin
  refine ⟨diff.toNat, len.toNat, by omega, by omega, ?_⟩
  cases hrest : writeToFileLoop b nds (left - len.toNat) (pos + len.toNat) with
  | error e =>
      rw [hrest] at hloop
      cases hloop
  | ok d' =>
      rw [hrest] at hloop
      cases hloop
      exact ⟨d', rfl, writeToFileLoop_zeros hzero hrest⟩

/-! ## The round trip -/

/-- What is asked of the two: the bytes from the cursor on are written, and a fresh array of
any base size that has read the file holds what the array had left. -/
def Saves (a : ByteArray) : Prop :=
  a.writeToFile = .ok (slice a.flat.cells a.position (a.size - a.position)) ∧
    ∀ base, 1 ≤ base → ∀ mem fresh, ByteArray.new mem base = .ok fresh → ∀ mems file,
      a.writeToFile = .ok file → (fresh.readFromFile mems file).1 = .error .badAlloc ∨
        ∃ b c, fresh.readFromFile mems file = (.ok (), b) ∧ b.setPosition 0 = (.ok (), c) ∧
          c.toString = a.toString

/-- Once the file is right, the way back is. -/
theorem saves_iff {a : ByteArray} (h : Placed a) : a.Saves ↔
    a.writeToFile = .ok (slice a.flat.cells a.position (a.size - a.position)) := by
  refine ⟨And.left, fun hwrite => ⟨hwrite, ?_⟩⟩
  intro base hbase mem fresh hnew mems file hfile
  rw [hwrite, Except.ok.injEq] at hfile
  have hstring : a.toString = .ok file := (toString_spec h).trans (congrArg Except.ok hfile)
  rw [hstring]
  exact readFromFile_fresh hbase hnew mems file

theorem writeToFile_right {a : ByteArray} (h : Placed a)
    (hright : a.size = a.position ∨ a.position % a.baseSize = 0 ∨
      (a.position % a.baseSize < 2 ^ 31 ∧ a.baseSize ≤ a.size - a.position)) :
    a.writeToFile = .ok (slice a.flat.cells a.position (a.size - a.position)) := by
  have hb := h.base_pos
  have hsize := h.size_le
  have hle := h.position_le
  rw [writeToFile, h.getReadSize_eq]
  rcases Nat.eq_zero_or_pos (a.size - a.position) with hzero | hleft
  · rw [hzero, writeToFileLoop_zero, slice, List.take_zero]
  have hlt : a.position < a.capacity := by omega
  have hfits := h.fromCur_fits hlt (n := a.size - a.position) (by omega)
  obtain ⟨hnodes, -, hpos, -, hsf⟩ := h.split hlt
  have hslice : slice (bytesOf a.fromCur) (a.position % a.baseSize) (a.size - a.position) =
      slice a.flat.cells a.position (a.size - a.position) := by
    rw [← slice_append_right (bytesOf a.beforeCur), hpos, ← bytesOf_append, ← hnodes, flat_cells]
  rw [← hslice]
  rcases hright with hdone | halign | ⟨hsmall, hge⟩
  · omega
  · rw [writeToFileLoop_aligned hb _ _ _ hsf halign (by omega), halign]
  · exact writeToFileLoop_inside hb hsf hsmall hge hfits

theorem toInt32_ne {v : ℕ} (h : 2 ^ 31 ≤ v) : toInt32 v ≠ v := by
  have hlt : toInt32 v < 2 ^ 31 := Int.bmod_lt (by decide)
  omega

/-- **To a file and back.** For the arrays of one shape, the bytes from the cursor on are
written, and read back into any other array, just if there are none, or the cursor is at the
front of a node, or as many are left as a node has and the offset in the node is an `int`. -/
theorem writeToFile_iff {a : ByteArray} (h : Reachable a) :
    (∀ a', Reachable a' → a.SameShape a' → a'.Saves) ↔
      a.size = a.position ∨ a.position % a.baseSize = 0 ∨
        (a.position % a.baseSize < 2 ^ 31 ∧ a.baseSize ≤ a.size - a.position) := by
  have hpl := h.placed
  have hb := hpl.base_pos
  have hsize := hpl.size_le
  have hle := hpl.position_le
  constructor
  · intro hall
    by_contra hwrong
    push Not at hwrong
    obtain ⟨hsome, hinside, hshort⟩ := hwrong
    have hmod := Nat.mod_lt a.position hb
    have hsplit := Nat.div_add_mod' a.position a.baseSize
    have hlt : a.position < a.capacity := by omega
    -- The marked cell is in the cursor's node, at offset `r`.
    have hfile : ∀ r < a.baseSize, ∃ diff len : ℕ,
        toInt32 (a.position % a.baseSize : ℕ) = diff ∧
          diff + len = min a.baseSize (a.size - a.position) ∧
          ∃ d', slice (marked a.capacity (a.position / a.baseSize * a.baseSize + r))
            a.position (a.size - a.position) = slice (marked a.baseSize r) diff len ++ d' ∧
              ∀ x ∈ d', x = 0 := by
      intro r hr
      obtain ⟨a', h', hshape, hcells⟩ := exists_sameShape h
        (length_marked a.capacity (a.position / a.baseSize * a.baseSize + r))
      have hsaves := (hall a' h' hshape).1
      obtain ⟨hbase', hcap', hpos', hsize'⟩ := hshape
      rw [← hbase'] at hr
      rw [← hbase', ← hpos', ← hcap'] at hcells
      obtain ⟨nds, hfrom, hzero⟩ := fromCur_marked h'.placed (by omega) hr hcells
      rw [writeToFile, hfrom, h'.placed.getReadSize_eq, hcells, hbase', hcap', hpos',
        hsize'] at hsaves
      exact writeToFileLoop_marked hzero (by omega) hsaves
    rcases Nat.lt_or_ge (a.position % a.baseSize) (2 ^ 31) with hsmall | hlarge
    · -- Only the part of the rest that is left after the offset comes from this node.
      have hless := hshort hsmall
      obtain ⟨diff, len, hdiff, hlen, d', hd', hzero⟩ := hfile (a.size - a.position) hless
      rw [toInt32_of_le (by omega) (by omega)] at hdiff
      have hone : (1 : UInt8) ∈ slice (marked a.baseSize (a.size - a.position)) diff len ++ d' := by
        rw [← hd']
        exact one_mem_slice_marked (by omega) (by omega) (by omega)
      rcases List.mem_append.mp hone with hone | hone
      · exact absurd (zero_of_mem_slice_marked (by omega) hone) (by decide)
      · exact absurd (hzero 1 hone) (by decide)
    · -- The offset is not the one in the node.
      obtain ⟨diff, len, hdiff, hlen, d', hd', hzero⟩ := hfile (a.position % a.baseSize) hmod
      have hne : diff ≠ a.position % a.baseSize := by
        rintro rfl
        exact toInt32_ne hlarge hdiff
      have hhead := congrArg List.head? hd'
      rw [slice_marked_head (by omega) hlt, if_pos hsplit.symm] at hhead
      rcases Nat.eq_zero_or_pos len with rfl | hpos
      · rw [slice, List.take_zero, List.nil_append] at hhead
        exact absurd (hzero 1 (List.mem_of_head? hhead.symm)) (by decide)
      · rw [List.head?_append, slice_marked_head hpos (by omega), if_neg hne, Option.some_or] at hhead
        exact absurd hhead (by decide)
  · rintro hright a' h' ⟨hbase', hcap', hpos', hsize'⟩
    rw [saves_iff h'.placed]
    exact writeToFile_right h'.placed (by rwa [hbase', hpos', hsize'])

theorem writeToFile_iff_front : threeBytes.Saves :=
  (writeToFile_iff reachable_threeBytes).mpr (by decide) threeBytes reachable_threeBytes
    (.refl threeBytes)

/-- Three bytes in a node of four, with the cursor at the second. -/
def insideNode : ByteArray := ⟨4, 4, 1, 3, [⟨[1, 2, 3, 0]⟩], some 0⟩

/-- One byte is written, and then the loop runs off the chain. -/
theorem writeToFile_inside :
    Reachable insideNode ∧ insideNode.writeToFile = .error .nullDeref := by
  refine ⟨reachable_iff_placed.mpr ?_, by decide⟩
  constructor <;> simp [insideNode, Sized, Node.size]

end ByteArray

end Skt
