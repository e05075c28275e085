import Mathlib.Logic.Function.Basic
import Skybrush.BufferGrowth

/-!
# Buffers Are Lists of Bytes

A program works on any number of buffers, each under a name: it makes new ones, owned or
views, and calls the operations on them in any order. To the program every buffer is a list
of bytes. What is behind the end of a buffer — bytes that were cut off, memory that was
never written — is never seen again, whatever the operations and their order.

Views look at memory that nothing else writes to. An operation reports an error only to a view
that it would have to resize, for an array without bytes, or because a size overflows.

## Main results

* `BufferOperation.Agree.follows`: one operation does to the buffers what it does to the lists.
* `BufferOperation.Agree.succeeds_iff`: when it succeeds.
* `BufferOperation.Reachable.agree`: so does every run of operations.
* `buffer_refines_list`: in every reachable state, buffers are lists of bytes.
-/

namespace Skybrush

open Checked

variable {ι : Type} [DecidableEq ι]

/-- The buffers of a program, by name. -/
abbrev Buffers (ι : Type) := ι → Option RawBuffer

/-- The lists of bytes that they stand for. -/
abbrev ByteLists (ι : Type) := ι → Option (List UInt8)

/-- An operation on buffers. -/
inductive BufferOperation (ι : Type) where
  | init (i : ι) (initialSize : ℕ)
  | initFromBytes (i : ι) (bytes : List UInt8)
  | initView (i : ι) (bytes : List UInt8)
  | resize (i : ι) (newSize : ℕ)
  | clear (i : ι)
  | prune (i : ι)
  | fill (i : ι) (value : UInt8)
  | appendByte (i : ι) (byte : UInt8)
  | appendBytes (i : ι) (bytes : List UInt8) (numBytes : ℕ)
  | concat (i other : ι)
  | extendWithZeros (i : ι) (numZeros : ℕ)

namespace BufferOperation

/-- The result of a call on one buffer of many. -/
def put (s : Buffers ι) (i : ι) : RawBuffer.Outcome → Checked (SbError × Buffers ι) (Buffers ι)
  | ok b => ok (Function.update s i (some b))
  | error (e, b) => error (e, Function.update s i (some b))
  | fault => fault
  | outOfFuel => outOfFuel

/-- A call on one buffer; a buffer that was not initialised must not be used. -/
def onBuffer (s : Buffers ι) (i : ι) (f : RawBuffer → RawBuffer.Outcome) :
    Checked (SbError × Buffers ι) (Buffers ι) :=
  match s i with
  | some b => put s i (f b)
  | none => fault

/-- What an operation does, with the bytes that new memory happens to hold. -/
def exec (fresh : ℕ → UInt8) (s : Buffers ι) :
    BufferOperation ι → Checked (SbError × Buffers ι) (Buffers ι)
  | init i initialSize => ok (Function.update s i (some (RawBuffer.init initialSize)))
  | initFromBytes i bytes =>
      match RawBuffer.initFromBytes bytes with
      | .ok b => ok (Function.update s i (some b))
      | .error e => error (e, s)
  | initView i bytes => ok (Function.update s i (some (RawBuffer.initView bytes)))
  | resize i newSize => onBuffer s i (RawBuffer.resize (.plenty fresh) newSize)
  | clear i => onBuffer s i (RawBuffer.clear (.plenty fresh))
  | prune i => onBuffer s i (RawBuffer.prune (.plenty fresh))
  | fill i value => onBuffer s i (RawBuffer.fill value)
  | appendByte i byte => onBuffer s i (RawBuffer.appendByte (.plenty fresh) byte)
  | appendBytes i bytes numBytes =>
      onBuffer s i (RawBuffer.appendBytes (.plenty fresh) bytes numBytes)
  | concat i other =>
      match s other with
      | some other => onBuffer s i (RawBuffer.concat (.plenty fresh) other)
      | none => fault
  | extendWithZeros i numZeros => onBuffer s i (RawBuffer.extendWithZeros (.plenty fresh) numZeros)

/-- What an operation that succeeds does to the lists. -/
def apply (l : ByteLists ι) : BufferOperation ι → ByteLists ι
  | init i initialSize => Function.update l i (some (List.replicate initialSize 0))
  | initFromBytes i bytes => Function.update l i (some bytes)
  | initView i bytes => Function.update l i (some bytes)
  | resize i newSize => Function.update l i ((l i).map fun bytes =>
      bytes.take newSize ++ List.replicate (newSize - bytes.length) 0)
  | clear i => Function.update l i ((l i).map fun _ => [])
  | prune _ => l
  | fill i value => Function.update l i ((l i).map fun bytes =>
      List.replicate bytes.length value)
  | appendByte i byte => Function.update l i ((l i).map (· ++ [byte]))
  | appendBytes i bytes numBytes => Function.update l i ((l i).map (· ++ bytes.take numBytes))
  | concat i other => Function.update l i ((l i).map (· ++ (l other).getD []))
  | extendWithZeros i numZeros => Function.update l i ((l i).map
      (· ++ List.replicate numZeros 0))

/-- What the callers of an operation have to take care of: buffers are initialised before
they are used, sizes are of type `size_t`, arrays are as long as they are said to be and
views not empty, a buffer is not appended to itself, and the size of a buffer that is
extended does not overflow. -/
def Valid (s : Buffers ι) : BufferOperation ι → Prop
  | init _ initialSize => initialSize ≤ sizeMax
  | initFromBytes _ bytes => bytes.length ≤ sizeMax
  | initView _ bytes => bytes ≠ [] ∧ bytes.length ≤ sizeMax
  | resize i newSize => s i ≠ none ∧ newSize ≤ sizeMax
  | clear i => s i ≠ none
  | prune i => s i ≠ none
  | fill i _ => s i ≠ none
  | appendByte i _ => s i ≠ none
  | appendBytes i bytes numBytes => s i ≠ none ∧ numBytes ≤ bytes.length ∧ numBytes ≤ sizeMax
  | concat i other => i ≠ other ∧ s i ≠ none ∧ s other ≠ none
  | extendWithZeros i numZeros => ∃ b, s i = some b ∧ b.size + numZeros ≤ sizeMax

/-- The buffer that an operation makes anew. -/
def initialises : BufferOperation ι → Option ι
  | init i _ => some i
  | initFromBytes i _ => some i
  | initView i _ => some i
  | _ => none

/-! ### One operation -/

/-- Every buffer is well-formed and holds the bytes of its list. -/
structure Agree (s : Buffers ι) (l : ByteLists ι) : Prop where
  wellFormed : ∀ i b, s i = some b → b.WellFormed
  contents_eq : ∀ i, (s i).map RawBuffer.contents = l i

/-- Views that an operation does not make anew keep their size. -/
def KeepsViews (op : BufferOperation ι) (s s' : Buffers ι) : Prop :=
  ∀ i b, s i = some b → b.owned = false → op.initialises ≠ some i →
    ∃ b', s' i = some b' ∧ b'.owned = false ∧ b'.size = b.size

/-- An operation succeeds and does to the buffers what it does to the lists, or it reports an
error and changes nothing. -/
def Follows (fresh : ℕ → UInt8) (s : Buffers ι) (l : ByteLists ι) (op : BufferOperation ι) :
    Prop :=
  (∃ s', op.exec fresh s = ok s' ∧ Agree s' (op.apply l) ∧ op.KeepsViews s s') ∨
    ∃ e, op.exec fresh s = error (e, s)

variable {s : Buffers ι} {l : ByteLists ι} {op : BufferOperation ι} {i : ι} {b : RawBuffer}
  {fresh : ℕ → UInt8}

/-- One buffer is replaced together with its list. -/
theorem Agree.update (h : Agree s l) {i : ι} {bytes : List UInt8} (hb : b.WellFormed)
    (hbytes : b.contents = bytes) :
    Agree (Function.update s i (some b)) (Function.update l i (some bytes)) := by
  constructor
  · intro j b' hb'
    rcases eq_or_ne j i with rfl | hne
    · rw [Function.update_self] at hb'
      exact Option.some.inj hb' ▸ hb
    · rw [Function.update_of_ne hne] at hb'
      exact h.wellFormed j b' hb'
  · intro j
    rcases eq_or_ne j i with rfl | hne
    · rw [Function.update_self, Function.update_self, Option.map_some, hbytes]
    · rw [Function.update_of_ne hne, Function.update_of_ne hne]
      exact h.contents_eq j

/-- Making a buffer anew. -/
theorem Agree.follows_init (h : Agree s l) {bytes : List UInt8}
    (hexec : op.exec fresh s = ok (Function.update s i (some b)))
    (happly : op.apply l = Function.update l i (some bytes)) (hop : op.initialises = some i)
    (hb : b.WellFormed) (hbytes : b.contents = bytes) : Follows fresh s l op := by
  refine Or.inl ⟨_, hexec, happly ▸ h.update hb hbytes, fun j b' hb' hview hne => ?_⟩
  have hji : j ≠ i := fun hji => hne (hji ▸ hop)
  exact ⟨b', by rw [Function.update_of_ne hji, hb'], hview, rfl⟩

/-- Calling an operation on a buffer. -/
theorem Agree.follows_onBuffer (h : Agree s l) {f : RawBuffer → RawBuffer.Outcome}
    {g : List UInt8 → List UInt8} (hsome : s i ≠ none) (hexec : op.exec fresh s = onBuffer s i f)
    (happly : op.apply l = Function.update l i ((l i).map g))
    (hf : ∀ b, s i = some b → b.WellFormed → b.Performs (g b.contents) (f b)) :
    Follows fresh s l op := by
  obtain ⟨b, hb⟩ := Option.ne_none_iff_exists'.mp hsome
  have hperforms := hf b hb (h.wellFormed i b hb)
  rw [← h.contents_eq, hb, Option.map_some, Option.map_some] at happly
  rw [onBuffer, hb] at hexec
  dsimp only at hexec
  generalize f b = outcome at hexec hperforms
  cases hperforms with
  | @done b' wellFormed contents_eq owned_eq view_size =>
      refine Or.inl ⟨_, hexec, happly ▸ h.update wellFormed contents_eq,
        fun j b₁ hb₁ hview _ => ?_⟩
      rcases eq_or_ne j i with rfl | hne
      · obtain rfl : b = b₁ := Option.some.inj (hb.symm.trans hb₁)
        exact ⟨b', Function.update_self .., owned_eq.trans hview, view_size hview⟩
      · exact ⟨b₁, by rw [Function.update_of_ne hne, hb₁], hview, rfl⟩
  | refused e =>
      rw [put, ← hb, Function.update_eq_self] at hexec
      exact Or.inr ⟨e, hexec⟩

/-- **One operation** does to the buffers what it does to the lists, or nothing. -/
theorem Agree.follows (h : Agree s l) (hvalid : op.Valid s) : Follows fresh s l op := by
  cases op with
  | init i initialSize =>
      exact h.follows_init rfl rfl rfl (RawBuffer.wellFormed_init hvalid)
        (RawBuffer.contents_init initialSize)
  | initFromBytes i bytes =>
      rcases eq_or_ne bytes [] with rfl | hne
      · exact Or.inr ⟨.einval, rfl⟩
      · have hexec : (initFromBytes i bytes).exec fresh s =
            ok (Function.update s i (some ⟨bytes, bytes.length, bytes.length, true⟩)) := by
          rw [exec, RawBuffer.initFromBytes_of_ne hne]
        exact h.follows_init hexec rfl rfl (RawBuffer.wellFormed_full hne hvalid true)
          List.take_length
  | initView i bytes =>
      exact h.follows_init rfl rfl rfl (RawBuffer.wellFormed_full hvalid.1 hvalid.2 false)
        List.take_length
  | resize i newSize =>
      refine h.follows_onBuffer hvalid.1 rfl rfl fun b _ hwf => ?_
      rw [hwf.length_contents]
      exact RawBuffer.performs_resize hwf hvalid.2
  | clear i =>
      refine h.follows_onBuffer hvalid rfl rfl fun b _ hwf => ?_
      have hclear := @RawBuffer.performs_resize fresh b hwf 0 (Nat.zero_le _)
      rw [List.take_zero, Nat.zero_sub, List.replicate_zero, List.nil_append] at hclear
      exact hclear
  | prune i =>
      have happly : (prune i).apply l = Function.update l i ((l i).map id) := by
        rw [Option.map_id_fun, id, Function.update_eq_self]
        rfl
      exact h.follows_onBuffer hvalid rfl happly fun b _ hwf => RawBuffer.performs_prune hwf
  | fill i value =>
      refine h.follows_onBuffer hvalid rfl rfl fun b _ hwf => ?_
      rw [hwf.length_contents]
      exact RawBuffer.performs_fill hwf value
  | appendByte i byte =>
      exact h.follows_onBuffer hvalid rfl rfl fun b _ hwf =>
        RawBuffer.performs_appendByte hwf byte
  | appendBytes i bytes numBytes =>
      exact h.follows_onBuffer hvalid.1 rfl rfl fun b _ hwf =>
        RawBuffer.performs_appendBytes hwf hvalid.2.1 hvalid.2.2
  | concat i other =>
      obtain ⟨-, hsome, hother⟩ := hvalid
      obtain ⟨b', hb'⟩ := Option.ne_none_iff_exists'.mp hother
      have hexec : (concat i other).exec fresh s =
          onBuffer s i (RawBuffer.concat (.plenty fresh) b') := by
        rw [exec, hb']
      have happly : (concat i other).apply l =
          Function.update l i ((l i).map (· ++ b'.contents)) := by
        rw [apply, ← h.contents_eq other, hb']
        rfl
      exact h.follows_onBuffer hsome hexec happly fun b _ hwf =>
        RawBuffer.performs_concat hwf (h.wellFormed other b' hb')
  | extendWithZeros i numZeros =>
      obtain ⟨b', hb', hmax⟩ := hvalid
      refine h.follows_onBuffer (hb' ▸ Option.some_ne_none b') rfl rfl fun b hb hwf => ?_
      obtain rfl : b' = b := Option.some.inj (hb'.symm.trans hb)
      exact RawBuffer.performs_extendWithZeros hwf hmax

/-! ### When an operation succeeds -/

/-- Some buffer with the name has the property. -/
def At (s : Buffers ι) (i : ι) (P : RawBuffer → Prop) : Prop := ∃ b, s i = some b ∧ P b

/-- An operation reports an error: a view cannot be resized or be given more room, an array must
have bytes, and the tests for an overflow decline a request for room. -/
def Refused (s : Buffers ι) : BufferOperation ι → Prop
  | initFromBytes _ bytes => bytes = []
  | resize i _ => At s i fun b => b.owned = false
  | clear i => At s i fun b => b.owned = false
  | appendByte i _ => At s i fun b => b.RefusesSpace 1
  | appendBytes i _ numBytes => At s i fun b => b.RefusesSpace numBytes
  | concat i other => At s i fun b => At s other fun b' => b.RefusesSpace b'.size
  | extendWithZeros i numZeros => At s i fun b => b.RefusesSpace (b.size + numZeros)
  | _ => False

omit [DecidableEq ι] in
theorem at_iff {P : RawBuffer → Prop} (hb : s i = some b) : At s i P ↔ P b := by
  constructor
  · rintro ⟨b', hb', hP⟩
    obtain rfl := Option.some.inj (hb.symm.trans hb')
    exact hP
  · exact fun hP => ⟨b, hb, hP⟩

/-- A call on a buffer succeeds if the function does. -/
theorem onBuffer_succeeds_iff {f : RawBuffer → RawBuffer.Outcome} (hb : s i = some b) :
    (onBuffer s i f).Succeeds ↔ (f b).Succeeds := by
  rw [onBuffer, hb]
  cases hrun : f b <;> simp [put, hrun]

/-- **An operation succeeds** unless it is refused. -/
theorem Agree.succeeds_iff (h : Agree s l) (hvalid : op.Valid s) :
    (op.exec fresh s).Succeeds ↔ ¬ op.Refused s := by
  have hsome : ∀ {i : ι}, s i ≠ none → ∃ b, s i = some b ∧ b.WellFormed := by
    intro i hne
    obtain ⟨b, hb⟩ := Option.ne_none_iff_exists'.mp hne
    exact ⟨b, hb, h.wellFormed i b hb⟩
  cases op with
  | init i initialSize => simp [exec, Refused]
  | initFromBytes i bytes =>
      rw [exec, Refused]
      by_cases hnil : bytes = []
      · simp [hnil, RawBuffer.initFromBytes]
      · simp [hnil, RawBuffer.initFromBytes_of_ne]
  | initView i bytes => simp [exec, Refused]
  | resize i newSize =>
      obtain ⟨b, hb, hwf⟩ := hsome hvalid.1
      rw [exec, Refused, onBuffer_succeeds_iff hb, at_iff hb,
        RawBuffer.resize_succeeds_iff hwf hvalid.2, Bool.not_eq_false]
  | clear i =>
      obtain ⟨b, hb, hwf⟩ := hsome hvalid
      rw [exec, Refused, onBuffer_succeeds_iff hb, at_iff hb, RawBuffer.clear,
        RawBuffer.resize_succeeds_iff hwf (Nat.zero_le _), Bool.not_eq_false]
  | prune i =>
      obtain ⟨b, hb, hwf⟩ := hsome hvalid
      rw [exec, onBuffer_succeeds_iff hb]
      exact iff_of_true (RawBuffer.prune_succeeds hwf) not_false
  | fill i value =>
      obtain ⟨b, hb, hwf⟩ := hsome hvalid
      rw [exec, onBuffer_succeeds_iff hb]
      exact iff_of_true ⟨_, RawBuffer.fill_eq_ok hwf value⟩ not_false
  | appendByte i byte =>
      obtain ⟨b, hb, hwf⟩ := hsome hvalid
      rw [exec, Refused, onBuffer_succeeds_iff hb, at_iff hb]
      exact RawBuffer.appendBytes_succeeds_iff hwf le_rfl (by decide)
  | appendBytes i bytes numBytes =>
      obtain ⟨b, hb, hwf⟩ := hsome hvalid.1
      rw [exec, Refused, onBuffer_succeeds_iff hb, at_iff hb]
      exact RawBuffer.appendBytes_succeeds_iff hwf hvalid.2.1 hvalid.2.2
  | concat i other =>
      obtain ⟨b, hb, hwf⟩ := hsome hvalid.2.1
      obtain ⟨b', hb', hwf'⟩ := hsome hvalid.2.2
      rw [exec, Refused, hb', at_iff hb, at_iff hb']
      dsimp only
      rw [onBuffer_succeeds_iff hb]
      exact RawBuffer.appendBytes_succeeds_iff hwf (hwf'.size_le.trans_eq hwf'.capacity_eq)
        (hwf'.size_le.trans hwf'.le_max)
  | extendWithZeros i numZeros =>
      obtain ⟨b, hb, hmax⟩ := hvalid
      rw [exec, Refused, onBuffer_succeeds_iff hb, at_iff hb]
      exact RawBuffer.extendWithZeros_succeeds_iff (h.wellFormed i b hb) hmax

/-! ### Runs -/

/-- The buffers that a program can come to from none at all, by operations that succeed or
report an error, with the lists that the successful ones make. -/
inductive Reachable : Buffers ι → ByteLists ι → Prop
  | start : Reachable (fun _ => none) (fun _ => none)
  | succeeds {s s' : Buffers ι} {l : ByteLists ι} {op : BufferOperation ι} {fresh : ℕ → UInt8}
      (h : Reachable s l) (hvalid : op.Valid s) (hrun : op.exec fresh s = ok s') :
      Reachable s' (op.apply l)
  | fails {s s' : Buffers ι} {l : ByteLists ι} {op : BufferOperation ι} {fresh : ℕ → UInt8}
      {e : SbError} (h : Reachable s l) (hvalid : op.Valid s)
      (hrun : op.exec fresh s = error (e, s')) : Reachable s' l

/-- **A run of operations** keeps buffers and lists in agreement. -/
theorem Reachable.agree (h : Reachable s l) : Agree s l := by
  induction h with
  | start => exact ⟨fun _ _ hb => (Option.some_ne_none _ hb.symm).elim, fun _ => rfl⟩
  | @succeeds s s' l op fresh _ hvalid hrun ih =>
      obtain ⟨s₁, hexec, hagree, -⟩ | ⟨e, hexec⟩ := @Agree.follows ι _ s l op fresh ih hvalid
      · obtain rfl : s' = s₁ := ok.inj (hrun.symm.trans hexec)
        exact hagree
      · exact nomatch hrun.symm.trans hexec
  | @fails s s' l op fresh e _ hvalid hrun ih =>
      obtain ⟨s₁, hexec, -⟩ | ⟨e', hexec⟩ := @Agree.follows ι _ s l op fresh ih hvalid
      · exact nomatch hrun.symm.trans hexec
      · obtain rfl : s' = s := (Prod.mk.inj (error.inj (hrun.symm.trans hexec))).2
        exact ih

/-- In every state of a run, an operation succeeds unless it is refused. -/
theorem Reachable.succeeds_iff (h : Reachable s l) (hvalid : op.Valid s) :
    (op.exec fresh s).Succeeds ↔ ¬ op.Refused s :=
  h.agree.succeeds_iff hvalid

end BufferOperation

open BufferOperation

/-- **Buffers refine lists of bytes**: whatever operations a program has called on its buffers,
in any order, every buffer holds the bytes of its list, in a block of memory that is large
enough, of at least one byte if the buffer owns it; and every further operation either does
to the buffers what it does to the lists, without changing the size of a view, or reports an
error and leaves all buffers as they were, with their bytes, their sizes and their
capacities. -/
theorem buffer_refines_list {s : Buffers ι} {l : ByteLists ι} (h : Reachable s l) :
    (∀ i, (s i).map RawBuffer.contents = l i) ∧
      (∀ i b, s i = some b → b.contents.length = b.size ∧ b.size ≤ b.capacity ∧
        (b.owned = true → 1 ≤ b.capacity)) ∧
      ∀ (op : BufferOperation ι) (fresh : ℕ → UInt8), op.Valid s →
        (∃ s', op.exec fresh s = ok s' ∧ (∀ i, (s' i).map RawBuffer.contents = op.apply l i) ∧
          op.KeepsViews s s') ∨
        ∃ e, op.exec fresh s = error (e, s) := by
  have hagree := h.agree
  refine ⟨hagree.contents_eq, fun i b hb => ?_, fun op fresh hvalid => ?_⟩
  · have hwf := hagree.wellFormed i b hb
    exact ⟨hwf.length_contents, hwf.size_le, fun _ => hwf.pos⟩
  · refine (hagree.follows hvalid).imp_left ?_
    rintro ⟨s', hexec, hagree', hviews⟩
    exact ⟨s', hexec, hagree'.contents_eq, hviews⟩

/-- Four bytes are set to 7 and cut down to one: when the buffer grows again, the bytes behind
the first are zero. -/
theorem buffer_refines_list_shrinkAndGrow :
    ∃ s : Buffers ℕ, s 0 = some ⟨[7, 0, 0], 3, 3, true⟩ ∧
      (s 0).map RawBuffer.contents = some [7, 0, 0] := by
  let fresh : ℕ → UInt8 := fun _ => 255
  have hinit := @Reachable.succeeds ℕ _ _ _ _ (.init 0 4) fresh .start
    (show 4 ≤ sizeMax by decide) rfl
  have hfill := @Reachable.succeeds ℕ _ _ _ _ (.fill 0 7) fresh hinit (Option.some_ne_none _) rfl
  have hshrink := @Reachable.succeeds ℕ _ _ _ _ (.resize 0 1) fresh hfill
    ⟨Option.some_ne_none _, by decide⟩ rfl
  have hgrow := @Reachable.succeeds ℕ _ _ _ _ (.resize 0 3) fresh hshrink
    ⟨Option.some_ne_none _, by decide⟩ rfl
  exact ⟨_, rfl, (buffer_refines_list hgrow).1 0⟩

end Skybrush
