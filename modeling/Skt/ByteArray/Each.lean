import Skt.ByteArray.Codec
import Skt.ByteArray.Runs

/-!
# Sequences of writes and reads

One write after the other, and then as many reads. What a kind of write stores and what a
kind of read takes is said once for a single call; here this is carried over to sequences.
A write fails only where the storage has to grow and the allocator refuses: which request
that is, and for which of the writes, is part of what is said.
-/

namespace Skt

open Lib

/-- The storage is `k` nodes, `used` bytes are in it and there are to be `size`: the
request for one more node is refused. -/
def Refused (mem : Allocator) (base used size : ℕ) : Prop :=
  ∃ k, used ≤ k * base ∧ k * base < size ∧ mem.grant (k * base + base) = none

theorem Refused.mono {mem : Allocator} {base used used' size size' : ℕ}
    (h : Refused mem base used size) (hused : used' ≤ used) (hsize : size ≤ size') :
    Refused mem base used' size' := by
  obtain ⟨k, hfits, hfull, hnone⟩ := h
  exact ⟨k, hused.trans hfits, hfull.trans_le hsize, hnone⟩

/-! ## Growing and reading the flat array -/

namespace Flat

/-- The bytes in use. -/
def content (f : Flat) : List UInt8 := f.cells.take f.size

theorem extend_grows (mem : Allocator) :
    ∀ (k : ℕ) (f : Flat), ∃ more, (f.extend mem k).2 = { f with cells := f.cells ++ more }
  | 0, f => ⟨[], by rw [List.append_nil]; rfl⟩
  | k + 1, f => by
      unfold extend
      cases mem.grant (f.capacity + f.base) with
      | none => exact ⟨[], by rw [List.append_nil]⟩
      | some junk =>
          obtain ⟨more, h⟩ := extend_grows mem k
            { f with cells := f.cells ++ (List.range f.base).map junk }
          refine ⟨(List.range f.base).map junk ++ more, ?_⟩
          rw [← List.append_assoc]
          exact h

/-- An extension fails only because the allocator refuses one of the requests. -/
theorem extend_refused (mem : Allocator) :
    ∀ (k : ℕ) (f : Flat), (f.extend mem k).1 = .ok () ∨
      ((f.extend mem k).1 = .error .badAlloc ∧
        ∃ j < k, mem.grant (f.capacity + j * f.base + f.base) = none)
  | 0, f => Or.inl rfl
  | k + 1, f => by
      unfold extend
      cases hg : mem.grant (f.capacity + f.base) with
      | none =>
          refine Or.inr ⟨rfl, 0, Nat.succ_pos k, ?_⟩
          rw [Nat.zero_mul, Nat.add_zero, hg]
      | some junk =>
          rcases extend_refused mem k
            { f with cells := f.cells ++ (List.range f.base).map junk } with
            hok | ⟨hbad, j, hj, hnone⟩
          · exact Or.inl hok
          · refine Or.inr ⟨hbad, j + 1, Nat.succ_lt_succ hj, ?_⟩
            rw [← hnone]
            simp only [capacity, List.length_append, List.length_map, List.length_range]
            congr 1
            ring

/-- Writing at the end of the content appends to it. -/
theorem write_appends {f : Flat} (hpos : f.pos = f.size) (hsize : f.size ≤ f.capacity)
    (hbase : f.base ∣ f.capacity) (mem : Allocator) (d : List UInt8) :
    ((f.write mem d).1 = .error .badAlloc ∧
      Refused mem f.base f.size (f.size + d.length)) ∨
      ((f.write mem d).1 = .ok () ∧ (f.write mem d).2.base = f.base ∧
        (f.write mem d).2.pos = (f.write mem d).2.size ∧
        (f.write mem d).2.content = f.content ++ d) := by
  obtain ⟨more, hmore⟩ := extend_grows mem (f.need d.length) f
  have hcases := extend_refused mem (f.need d.length) f
  unfold write reserve
  generalize f.extend mem (f.need d.length) = r at hmore hcases ⊢
  obtain ⟨res, f'⟩ := r
  rcases hcases with hok | ⟨herr, j, hj, hnone⟩
  · refine Or.inr ?_
    simp only at hok hmore
    subst hok hmore
    have hmax : max f.size (f.size + d.length) = f.size + d.length :=
      Nat.max_eq_right (Nat.le_add_right _ _)
    simp only [hpos, content, hmax, overlay, true_and]
    rw [List.take_append_of_le_length hsize]
    have hlen : (f.cells.take f.size ++ d).length = f.size + d.length := by
      rw [List.length_append, List.length_take,
        Nat.min_eq_left (show _ ≤ f.cells.length from hsize)]
    rw [← hlen, List.take_left]
  · simp only at herr
    subst herr
    obtain ⟨n, hn⟩ := hbase
    have hlt := lt_of_lt_need hj
    have hnodes : (n + j) * f.base = f.capacity + j * f.base := by
      rw [hn]
      ring
    refine Or.inl ⟨rfl, n + j, ?_, ?_, ?_⟩
    · omega
    · omega
    · rw [hnodes]
      exact hnone

theorem toString_length {f : Flat} (hpos : f.pos ≤ f.size) (hsize : f.size ≤ f.capacity) :
    f.toString.length = f.size - f.pos := by
  have hcap : f.size ≤ f.cells.length := hsize
  rw [toString, slice, List.length_take, List.length_drop]
  omega

/-- Reading takes its bytes off the front of what is left. -/
theorem read_takes {f : Flat} (hpos : f.pos ≤ f.size) (hsize : f.size ≤ f.capacity)
    {d rest : List UInt8} (h : f.toString = d ++ rest) :
    (f.read d.length).1 = .ok d ∧ (f.read d.length).2.toString = rest := by
  have hlen := toString_length hpos hsize
  rw [h, List.length_append] at hlen
  have hread : f.read d.length =
      (.ok (slice f.cells f.pos d.length), { f with pos := f.pos + d.length }) :=
    if_neg (by omega)
  have htake : f.toString.take d.length = slice f.cells f.pos d.length := by
    rw [toString, slice, slice, List.take_take, Nat.min_eq_left (by omega)]
  have hdrop : f.toString.drop d.length =
      slice f.cells (f.pos + d.length) (f.size - (f.pos + d.length)) := by
    rw [toString, slice, slice, List.drop_take, List.drop_drop, Nat.sub_sub]
  rw [h, List.take_left] at htake
  rw [h, List.drop_left] at hdrop
  rw [hread]
  exact ⟨congrArg _ htake.symm, hdrop.symm⟩

end Flat

namespace ByteArray

variable {α : Type}

/-! ## Writes -/

/-- The cursor is behind the content, which is `d`, in nodes of `base` bytes. -/
structure Wrote (base : ℕ) (a : ByteArray) (d : List UInt8) : Prop where
  placed : Placed a
  base_eq : a.baseSize = base
  pos_eq : a.position = a.size
  content : a.flat.content = d

theorem Wrote.size_eq {base : ℕ} {a : ByteArray} {d : List UInt8} (h : Wrote base a d) :
    a.size = d.length := by
  have hle : a.size ≤ a.flat.cells.length := by
    have hcap := h.placed.length_cells
    rw [Flat.capacity] at hcap
    rw [hcap]
    exact h.placed.size_le
  rw [← h.content, Flat.content, flat_size, List.length_take_of_le hle]

theorem write_wrote {base : ℕ} {a : ByteArray} {d : List UInt8} (h : Wrote base a d)
    (mem : Allocator) (buf : List UInt8) :
    ((a.write mem buf).1 = .error .badAlloc ∧
      Refused mem base d.length (d.length + buf.length)) ∨
      ((a.write mem buf).1 = .ok () ∧ Wrote base (a.write mem buf).2 (d ++ buf)) := by
  obtain ⟨hflat, hpl⟩ := write_spec h.placed mem buf
  have hcap := h.placed.length_cells
  have hsize : a.flat.size ≤ a.flat.capacity := by
    rw [hcap]
    exact h.placed.size_le
  have hdvd : a.flat.base ∣ a.flat.capacity := by
    rw [hcap, ← h.placed.nodes_capacity]
    exact Dvd.intro_left _ rfl
  have happ := Flat.write_appends (f := a.flat) h.pos_eq hsize hdvd mem buf
  rw [hflat] at happ
  rcases happ with ⟨hbad, hrefused⟩ | ⟨hok, hbase, hpos, hcontent⟩
  · refine Or.inl ⟨hbad, ?_⟩
    rw [← h.size_eq, ← h.base_eq]
    exact hrefused
  · refine Or.inr ⟨hok, hpl ?_, hbase.trans h.base_eq, hpos,
      hcontent.trans (congrArg (· ++ buf) h.content)⟩
    change (a.write mem buf).1 = .ok () at hok
    rw [hok]
    exact fun hne => nomatch hne

/-- A write puts the bytes `enc x` behind the content, unless the allocator refuses. -/
def Stores (write : Allocator → ByteArray → α → Except Fault Unit × ByteArray)
    (enc : α → List UInt8) : Prop :=
  ∀ (mem : Allocator) (base : ℕ) (a : ByteArray) (d : List UInt8) (x : α), Wrote base a d →
    ((write mem a x).1 = .error .badAlloc ∧
      Refused mem base d.length (d.length + (enc x).length)) ∨
      ((write mem a x).1 = .ok () ∧ Wrote base (write mem a x).2 (d ++ enc x))

/-- With `used` bytes stored, one of the writes is refused the node it needs. -/
inductive RefusedIn (enc : α → List UInt8) (base : ℕ) : ℕ → List (Allocator × α) → Prop where
  | head {used : ℕ} {mem : Allocator} {x : α} {xs : List (Allocator × α)} :
      Refused mem base used (used + (enc x).length) → RefusedIn enc base used ((mem, x) :: xs)
  | tail {used : ℕ} {mem : Allocator} {x : α} {xs : List (Allocator × α)} :
      RefusedIn enc base (used + (enc x).length) xs → RefusedIn enc base used ((mem, x) :: xs)

variable {write : Allocator → ByteArray → α → Except Fault Unit × ByteArray}
  {enc : α → List UInt8}

theorem stores_of_write (h : ∀ mem a x, write mem a x = a.write mem (enc x)) :
    Stores write enc := by
  intro mem base a d x hwrote
  rw [h]
  exact write_wrote hwrote mem (enc x)

theorem Stores.each (h : Stores write enc) {base : ℕ} : ∀ (xs : List (Allocator × α))
    {a : ByteArray} {d : List UInt8}, Wrote base a d →
      ((writeEach write a xs).1 = .error .badAlloc ∧ RefusedIn enc base d.length xs) ∨
        ((writeEach write a xs).1 = .ok () ∧
          Wrote base (writeEach write a xs).2 (d ++ xs.flatMap fun w => enc w.2))
  | [], a, d, hwrote => by
      refine Or.inr ⟨rfl, ?_⟩
      rw [List.flatMap_nil, List.append_nil]
      exact hwrote
  | (mem, x) :: xs, a, d, hwrote => by
      have hone := h mem base a d x hwrote
      unfold writeEach
      generalize write mem a x = r at hone ⊢
      obtain ⟨res, a'⟩ := r
      rcases hone with ⟨herr, hrefused⟩ | ⟨hok, hwrote'⟩
      · simp only at herr
        subst herr
        exact Or.inl ⟨rfl, .head hrefused⟩
      · simp only at hok
        subst hok
        rw [List.flatMap_cons, ← List.append_assoc]
        rcases h.each xs hwrote' with ⟨herr, hrefused⟩ | hdone
        · rw [List.length_append] at hrefused
          exact Or.inl ⟨herr, .tail hrefused⟩
        · exact Or.inr hdone

theorem new_wrote {base : ℕ} (hb : 1 ≤ base) {mem : Allocator} {a : ByteArray}
    (hnew : ByteArray.new mem base = .ok a) : Wrote base a [] := by
  obtain ⟨hpl, hbase, hpos, hsize, -⟩ := new_spec hb hnew
  refine ⟨hpl, hbase, hpos.trans hsize.symm, ?_⟩
  rw [Flat.content, flat_size, hsize, List.take_zero]

/-- Back at the start, all of the content is left to read. -/
theorem setPosition_zero {base : ℕ} {a : ByteArray} {d : List UInt8} (h : Wrote base a d) :
    ∃ a', a.setPosition 0 = (.ok (), a') ∧ Placed a' ∧ a'.flat.toString = d := by
  obtain ⟨hflat, hpl⟩ := setPosition_spec h.placed 0
  have hset : a.flat.setPosition 0 =
      (.ok (), { a.flat with pos := 0, size := max a.flat.size 0 }) :=
    if_neg (Nat.not_lt_zero _)
  rw [hset, Nat.max_eq_left (Nat.zero_le _)] at hflat
  generalize a.setPosition 0 = r at hflat hpl ⊢
  obtain ⟨res, a'⟩ := r
  obtain ⟨hres, hleft⟩ := Prod.mk.inj hflat
  simp only at hres hleft
  subst hres
  refine ⟨a', rfl, hpl (fun hne => nomatch hne), ?_⟩
  rw [← hleft]
  exact h.content

/-- What has been written to a fresh array is there to be read from the start. -/
theorem Stores.fresh (h : Stores write enc) {base : ℕ} (hb : 1 ≤ base) {mem : Allocator}
    {a : ByteArray} (hnew : ByteArray.new mem base = .ok a) (xs : List (Allocator × α)) :
    ((writeEach write a xs).1 = .error .badAlloc ∧ RefusedIn enc base 0 xs) ∨
      ∃ b c, writeEach write a xs = (.ok (), b) ∧ b.setPosition 0 = (.ok (), c) ∧
        Wrote base b (xs.flatMap fun w => enc w.2) ∧ Placed c ∧
        c.flat.toString = xs.flatMap fun w => enc w.2 := by
  rcases h.each xs (new_wrote hb hnew) with hbad | ⟨hok, hwrote⟩
  · exact Or.inl hbad
  · right
    generalize writeEach write a xs = r at hok hwrote ⊢
    obtain ⟨res, b⟩ := r
    simp only at hok
    subst hok
    rw [List.nil_append] at hwrote
    obtain ⟨c, hset, hc, hleft⟩ := setPosition_zero hwrote
    exact ⟨b, c, rfl, hset, hwrote, hc, hleft⟩

/-! ## Reads -/

/-- Whatever follows, `f` reads `d` as `x` and leaves the rest. -/
def Reads {α : Type} (f : ByteArray → Except Fault α × ByteArray) (d : List UInt8)
    (x : α) : Prop :=
  ∀ (a : ByteArray) (rest : List UInt8), Placed a → a.flat.toString = d ++ rest →
    ∃ a', f a = (.ok x, a') ∧ Placed a' ∧ a'.flat.toString = rest

theorem Reads.map {α β : Type} {f : ByteArray → Except Fault α × ByteArray}
    {d : List UInt8} {x : α} (h : Reads f d x) (g : α → β) :
    Reads (fun a => Prod.map (Except.map g) id (f a)) d (g x) := by
  intro a rest hpl hrest
  obtain ⟨a', hf, hpl', hrest'⟩ := h a rest hpl hrest
  refine ⟨a', ?_, hpl', hrest'⟩
  dsimp only
  rw [hf]
  rfl

theorem reads_read {d : List UInt8} (hd : 0 < d.length) :
    Reads (fun a => a.read d.length) d d := by
  intro a rest hpl hrest
  obtain ⟨hflat, hpl'⟩ := read_spec hpl hd
  have hsize : a.flat.size ≤ a.flat.capacity := by
    rw [hpl.length_cells]
    exact hpl.size_le
  obtain ⟨hok, hleft⟩ := Flat.read_takes (f := a.flat) hpl.position_le hsize hrest
  rw [hflat] at hok hleft
  dsimp only
  generalize a.read d.length = r at hpl' hok hleft ⊢
  obtain ⟨res, a'⟩ := r
  simp only at hok
  subst hok
  exact ⟨a', rfl, hpl' (fun hne => nomatch hne), hleft⟩

theorem toString_nil_iff {a : ByteArray} (h : Placed a) :
    a.flat.toString = [] ↔ a.getReadSize = 0 := by
  have hlen := Flat.toString_length (f := a.flat) h.position_le
    (by rw [h.length_cells]; exact h.size_le)
  rw [← List.length_eq_zero_iff, hlen, h.getReadSize_eq]
  exact Iff.rfl

variable {read : ByteArray → Except Fault α × ByteArray}

/-- Elements that are read one by one, as `dec` says, are read in sequence. -/
theorem reads_all {β : Type} {read : β → ByteArray → Except Fault α × ByteArray}
    {enc : β → List UInt8} {dec : β → α} (h : ∀ x, Reads (read x) (enc x) (dec x)) :
    ∀ xs : List β, Reads (readAll (xs.map read)) (xs.flatMap enc) (xs.map dec)
  | [] => fun a rest hpl hrest => ⟨a, rfl, hpl, hrest⟩
  | x :: xs => by
      intro a rest hpl hrest
      rw [List.flatMap_cons, List.append_assoc] at hrest
      obtain ⟨a', hf, hpl', hrest'⟩ := h x a _ hpl hrest
      obtain ⟨a'', hf', hdone⟩ := reads_all h xs a' rest hpl' hrest'
      refine ⟨a'', ?_, hdone⟩
      simp only [List.map_cons, readAll, hf, hf']
      rfl

theorem reads_each {β : Type} {enc : β → List UInt8} {dec : β → α}
    (h : ∀ x, Reads read (enc x) (dec x)) (xs : List β) :
    Reads (readEach read xs.length) (xs.flatMap enc) (xs.map dec) := by
  have hall := reads_all h xs
  rw [List.map_const'] at hall
  exact hall

theorem readEach_succ (n : ℕ) (a : ByteArray) :
    readEach read (n + 1) a =
      match read a with
      | (.error e, a') => (.error e, a')
      | (.ok x, a') => Prod.map (Except.map (x :: ·)) id (readEach read n a') := rfl

/-- A read that returns `x` has taken bytes for which `Q x` holds. -/
def Takes (read : ByteArray → Except Fault α × ByteArray) (Q : α → List UInt8 → Prop) : Prop :=
  ∀ (a a' : ByteArray) (x : α), Placed a → read a = (.ok x, a') →
    Placed a' ∧ ∃ d, a.flat.toString = d ++ a'.flat.toString ∧ Q x d

theorem Takes.each {Q : α → List UInt8 → Prop} (h : Takes read Q) :
    ∀ (n : ℕ) (a a' : ByteArray) (xs : List α), Placed a →
      readEach read n a = (.ok xs, a') →
      Placed a' ∧ ∃ ds, a.flat.toString = ds.flatten ++ a'.flat.toString ∧
        List.Forall₂ Q xs ds
  | 0, a, a', xs, hpl, hread => by
      cases hread
      exact ⟨hpl, [], rfl, .nil⟩
  | n + 1, a, a', xs, hpl, hread => by
      rw [readEach_succ] at hread
      cases hone : read a with
      | mk res a₁ =>
          rw [hone] at hread
          cases res with
          | error e => cases hread
          | ok x =>
              obtain ⟨hpl₁, d, hd, hQ⟩ := h a a₁ x hpl hone
              simp only at hread
              cases hrest : readEach read n a₁ with
              | mk res' a₂ =>
                  rw [hrest] at hread
                  cases res' with
                  | error e => cases hread
                  | ok xs' =>
                      cases hread
                      obtain ⟨hpl₂, ds, hds, hall⟩ := h.each n a₁ a₂ xs' hpl₁ hrest
                      refine ⟨hpl₂, d :: ds, ?_, .cons hQ hall⟩
                      rw [hd, hds, List.flatten_cons, List.append_assoc]
                      rfl

/-- A read of nothing looks at the current node all the same. -/
theorem read_zero {a : ByteArray} (h : Placed a) :
    a.read 0 = (if a.position = a.capacity then .error .nullDeref else .ok [], a) := by
  have hb := h.base_pos
  rw [ByteArray.read, if_neg (Nat.not_lt_zero _)]
  by_cases hend : a.position = a.capacity
  · have hnil : a.fromCur = [] := by rw [fromCur, h.cur_eq, if_pos hend]
    rw [hnil, readLoop, if_pos hend]
  · have hle := h.position_le.trans h.size_le
    have hlt : a.position < a.capacity := lt_of_le_of_ne hle hend
    obtain ⟨hnodes, hlen, -, -, hsized⟩ := h.split hlt
    have hfits := h.fromCur_fits hlt (n := 1) hlt
    cases hfrom : a.fromCur with
    | nil =>
        rw [hfrom, List.length_nil, Nat.zero_mul] at hfits
        omega
    | cons nd nds =>
        rw [hfrom] at hsized
        have hnd : nd.size = a.baseSize := hsized nd List.mem_cons_self
        have hmod : a.position % a.baseSize < a.baseSize := Nat.mod_lt _ hb
        have hcur : a.nodeAt (a.beforeCur.length + 0) = a.cur := by
          rw [Nat.add_zero, hlen, h.nodeAt_div hle, h.cur_eq]
        rw [readLoop, if_pos (Nat.zero_le _), if_neg (by omega)]
        dsimp only
        rw [hcur, if_neg hend]
        simp [slice]

/-- `read` takes as many bytes as it is asked for. -/
theorem takes_read (n : ℕ) : Takes (fun a => a.read n) fun x d => x = d ∧ d.length = n := by
  intro a a' x hpl hread
  dsimp only at hread
  rcases Nat.eq_zero_or_pos n with rfl | hn
  · rw [read_zero hpl, Prod.mk.injEq] at hread
    obtain ⟨hx, rfl⟩ := hread
    split at hx
    · cases hx
    · cases hx
      exact ⟨hpl, [], rfl, rfl, rfl⟩
  · obtain ⟨hflat, hpl'⟩ := read_spec hpl hn
    have hsize : a.flat.size ≤ a.flat.capacity := by
      rw [hpl.length_cells]
      exact hpl.size_le
    have hlen := Flat.toString_length (f := a.flat) hpl.position_le hsize
    rw [hread] at hflat hpl'
    have henough : n ≤ a.flat.toString.length := by
      by_contra hlt
      rw [Flat.read, if_pos (by omega)] at hflat
      cases hflat
    have htake : (a.flat.toString.take n).length = n := List.length_take_of_le henough
    have htakes := Flat.read_takes (f := a.flat) hpl.position_le hsize
      (List.take_append_drop n a.flat.toString).symm
    rw [htake, hflat] at htakes
    refine ⟨hpl' fun hne => (nomatch hne), a.flat.toString.take n, ?_, ?_, htake⟩
    · rw [htakes.2, List.take_append_drop]
    · exact Except.ok.inj htakes.1

theorem Takes.mono {Q Q' : α → List UInt8 → Prop} (h : Takes read Q)
    (hQ : ∀ x d, Q x d → Q' x d) : Takes read Q' := by
  intro a a' x hpl hread
  obtain ⟨hpl', d, hd, hx⟩ := h a a' x hpl hread
  exact ⟨hpl', d, hd, hQ x d hx⟩

theorem Takes.map {β : Type} {Q : α → List UInt8 → Prop} (h : Takes read Q) (g : α → β) :
    Takes (fun a => Prod.map (Except.map g) id (read a)) fun y d => ∃ x, g x = y ∧ Q x d := by
  intro a a' y hpl hread
  dsimp only at hread
  cases hone : read a with
  | mk res a₁ =>
      rw [hone] at hread
      cases res with
      | error e => cases hread
      | ok x =>
          cases hread
          obtain ⟨hpl', d, hd, hQ⟩ := h a a₁ x hpl hone
          exact ⟨hpl', d, hd, x, rfl, hQ⟩

end ByteArray

end Skt
