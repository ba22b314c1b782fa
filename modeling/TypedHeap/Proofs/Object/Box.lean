import TypedHeap.Object.Text
import TypedHeap.Proofs.Heap.Runs

/-!
# Boxes, strings and buffers

* `Heap.encode_meets`, `storeScalar_meets`: scalars as bytes, wherever they are stored.
* `Heap.Spells`: an object is the string of some bytes.
* `Box.new_meets`, `newType_meets`, `ofParam_meets`; `Text.ofBytes_spells`, `Buffer.new_meets`: new
  objects that hold bytes.
-/

namespace TypedHeap

open TypedHeap.Action (Meets)

namespace Heap

variable {h h' : Heap} {v : Value} {t : TypeRef} {l : Layout} {n extra i : Nat}
  {S : Value → Nat → Prop} {bs : List UInt8} {k : ScalarKind}

/-! ## Scalars -/

/-- Only a symbol may need a key. -/
theorem symbols_encode (k : ScalarKind) (x : k.Carrier) (table : SymbolTable) :
    ((k.encode x).runOn table).2 = table ∨
      ∃ s, ((k.encode x).runOn table).2 = ((SymbolTable.intern s).runOn table).2 := by
  cases k
  case symbol =>
    refine .inr ⟨x, ?_⟩
    show (((SymbolTable.intern x) >>= fun n => pure (LittleEndian.toBytes 4 n) :
      Action SymbolTable (List UInt8)).runOn table).2 = _
    rw [Action.runOn_bind]
    rcases (SymbolTable.intern x).runOn table with ⟨_ | _, table'⟩ <;> rfl
  all_goals exact .inl rfl

theorem length_encode {x : k.Carrier} {table table' : SymbolTable}
    (hrun : (k.encode x).runOn table = (.ok bs, table')) : bs.length = k.size := by
  unfold ScalarKind.encode at hrun
  rw [Action.runOn_bind] at hrun
  rcases hword : (k.toWord x).runOn table with ⟨e | n, s⟩
  · rw [hword] at hrun
    cases hrun
  · rw [hword] at hrun
    cases hrun
    exact LittleEndian.length_toBytes k.size n

theorem runOn_encode (k : ScalarKind) (x : k.Carrier) (h : Heap) :
    (encode k x).runOn h = (((k.encode x).runOn h.symbols).1,
      { h with symbols := ((k.encode x).runOn h.symbols).2 }) :=
  rfl

theorem path_encode (k : ScalarKind) (x : k.Carrier) (h : Heap) :
    Path S h { h with symbols := ((k.encode x).runOn h.symbols).2 } := by
  rcases symbols_encode k x h.symbols with heq | ⟨s, heq⟩
  · rw [heq]
    exact .refl
  · rw [heq]
    exact .step (.symbol s)

/-- Making the bytes of a scalar changes the symbol table only. -/
theorem encode_meets (k : ScalarKind) (x : k.Carrier) :
    Meets (Path S) (encode k x) h fun bs h' =>
      (∃ table, (k.encode x).runOn table = (.ok bs, h'.symbols)) ∧ bs.length = k.size ∧
        h' = { h with symbols := h'.symbols } := by
  refine .of_runOn (runOn_encode k x h) (path_encode k x h) fun bs hbs => ?_
  have hok : (k.encode x).runOn h.symbols = (.ok bs, ((k.encode x).runOn h.symbols).2) :=
    Prod.ext hbs rfl
  exact ⟨⟨_, hok⟩, length_encode hok, rfl⟩

/-- Storing a scalar: an empty table entry for a new symbol, and then the bytes. -/
theorem storeScalar_meets {x : k.Carrier} {Q : Unit → Heap → Prop} {off : Nat}
    (hwrite : ∀ bs table table', (k.encode x).runOn table' = (.ok bs, table) → bs.length = k.size →
      Meets (Path S) (writeBytes off bs) { h with symbols := table } Q) :
    Meets (Path S) (storeScalar off k x) h Q := by
  refine Meets.bind (encode_meets k x) fun bs h' _ hbs => ?_
  obtain ⟨⟨table, hrun⟩, hlen, heq⟩ := hbs
  rw [heq]
  exact hwrite bs h'.symbols table hrun hlen

theorem builtin_scalar (k : ScalarKind) : ∃ d, TypeTable.builtin.descriptor k.type = .ok d ∧
    ∃ size align, d.kind = .primitive size align ∧ size.toNat = k.size := by
  cases k <;> exact ⟨_, rfl, _, _, rfl, rfl⟩

/-- Scalars are bits of the size of their kind. -/
theorem Sound.scalar_size (hs : h.Sound) (hl : h.registry.layouts.find? k.type = some l) :
    l.isBits = true ∧ l.size = k.size := by
  obtain ⟨d, hd, size, align, hkind, hsize⟩ := builtin_scalar k
  obtain ⟨d', hd', hdesc⟩ := hs.registry.layouts.describes hl
  have hd : h.registry.table.descriptor k.type = .ok d := hs.builtin hd
  rw [hd] at hd'
  cases hd'
  unfold Layouts.Describes at hdesc
  rw [hkind] at hdesc
  obtain rfl : l = Layout.bits size.toNat align.toNat := hdesc
  exact ⟨rfl, hsize⟩

theorem Sound.scalar_layout (hs : h.Sound) (ht : h.typeOf v = .ok k.type) :
    ∃ l, h.registry.layouts.find? k.type = some l ∧ l.isBits = true ∧ l.size = k.size := by
  obtain ⟨d, hd, _, _, hkind, -⟩ := builtin_scalar k
  obtain ⟨n, hn, hshape⟩ := hs.shaped_of_typeOf ht (hs.builtin hd)
  unfold Shaped at hshape
  rw [hkind] at hshape
  obtain ⟨l, hl, -⟩ := hshape
  exact ⟨l, hl, hs.scalar_size hl⟩

/-- Filling an object that is bits. -/
theorem fill_meets (hs : h.Sound) (ht : h.typeOf v = .ok t) (hl : h.registry.layouts.find? t = some l)
    (hbits : l.isBits = true) (hlen : bs.length = l.size) (hp : h.Provides t bs) (hS : ∀ j, S v j) :
    Meets (Path S) (writeBytes v.offset bs) h fun _ h' => h' = h.put v 0 bs := by
  have hend := hs.end_le_top (hs.size_bits ht hl hbits)
  exact writeBytes_meets (k := 0) (by omega) (.bits ht hl hbits hlen hp hS)

end Heap

open Heap

variable {h h' : Heap} {v : Value} {t : TypeRef} {extra i : Nat} {S : Value → Nat → Prop}
  {bs : List UInt8} {k : ScalarKind}

/-! ## Boxes -/

/-- A datum is a scalar: the bits of it, or a reference to a box with these bits. -/
inductive Datum.Encodes (h : Heap) (k : ScalarKind) (x : k.Carrier) : Datum → Prop
  | bits {table : SymbolTable} {bs : List UInt8} (encode : (k.encode x).runOn table = (.ok bs, h.symbols)) :
      Encodes h k x (.bits k.type bs)
  | box {v : Value} {table : SymbolTable} {bs : List UInt8}
      (encode : (k.encode x).runOn table = (.ok bs, h.symbols)) (type : h.typeOf v = .ok k.type)
      (payload : h.payload v = .ok bs) : Encodes h k x (.ref v)

namespace Box

theorem new_meets (hr : Ready S h) (k : ScalarKind) (x : k.Carrier) :
    Meets (Path S) (new k x) h fun v h' =>
      ¬h.Live v ∧ h'.typeOf v = .ok k.type ∧ Datum.Encodes h' k x (.ref v) := by
  unfold new
  refine Meets.bind (allocate_meets hr k.type 0) fun v h₁ hpath hv => ?_
  have hr₁ := hr.along hpath
  have hstore : Meets (Path S) (storeScalar v.offset k x) h₁ fun _ h' =>
      h'.typeOf v = .ok k.type ∧ Datum.Encodes h' k x (.ref v) := by
    refine storeScalar_meets fun bs table table' hrun hlen => ?_
    have hs : ({ h₁ with symbols := table } : Heap).Sound := hr₁.sound.of_symbols table
    have ht : ({ h₁ with symbols := table } : Heap).typeOf v = .ok k.type := hv.type
    obtain ⟨l, hl, hbits, hsize⟩ := hs.scalar_layout ht
    have hlen := hlen.trans hsize.symm
    have hobject := hs.size_bits ht hl hbits
    refine (fill_meets hs ht hl hbits hlen (.scalar rfl hrun)
      (hr.fresh hv.fresh)).mono fun _ h' hpath heq => ?_
    have ht' := (hpath.keeps hs).typeOf ht
    have hencode : (k.encode x).runOn table' = (.ok bs, h'.symbols) := by rw [heq, put_symbols, hrun]
    have hpayload : h'.payload v = .ok bs := by
      have hend := Nat.le_trans (hs.end_le_top hobject) hs.arena.reach
      rw [(hpath.sound hs).payload_eq ((hpath.keeps hs).size? hobject), heq, ← hlen, put_memory,
        Nat.add_zero, Memory.window_write_self _ _ _ (by omega)]
    exact ⟨ht', .box hencode ht' hpayload⟩
  exact Meets.bind hstore fun _ _ _ ht => Meets.pure ⟨hv.fresh, ht⟩

theorem newType_meets (hr : Ready S h) (t : TypeRef) :
    Meets (Path S) (newType t) h fun v h' => ¬h.Live v ∧ h'.typeOf v = .ok Builtin.dataType :=
  (Meets.get_bind (Meets.lift_bind fun _ _ => new_meets hr .dataType t)).mono fun _ _ _ hv => ⟨hv.1, hv.2.1⟩

theorem ofParam_meets (hr : Ready S h) (p : TypeParam) :
    Meets (Path S) (ofParam p) h fun v h' => h'.Live v := by
  cases p with
  | type t => exact (newType_meets hr t).mono fun _ _ _ hv => live_of_typeOf hv.2
  | int n => exact (new_meets hr .int64 n).mono fun _ _ _ hv => live_of_typeOf hv.2.1
  | symbol s => exact (new_meets hr .symbol s).mono fun _ _ _ hv => live_of_typeOf hv.2.1
  | bool b => exact (new_meets hr .bool b).mono fun _ _ _ hv => live_of_typeOf hv.2.1

end Box

/-! ## Strings and buffers -/

theorem Buffer.new_meets (hr : Ready S h) (length : Nat) :
    Meets (Path S) (Buffer.new length) h fun v h' => NewObject h h' v Builtin.buffer length :=
  allocate_meets hr Builtin.buffer length

/-- An object is the string of some bytes. -/
structure Heap.Spells (h : Heap) (v : Value) (bs : List UInt8) : Prop where
  type : h.typeOf v = .ok Builtin.string
  length : h.word v 0 = bs.length
  bytes : h.memory.window (v.offset + refSize) bs.length = bs

namespace Heap.Spells

/-- It stays one as long as nobody writes to it. -/
theorem keeps (hv : h.Spells v bs) (hs : h.Sound) (hk : Keeps S h h') (hS : ∀ j, ¬S v j) : h'.Spells v bs := by
  have hn := hs.size_string hv.type
  have hlength := hv.length
  refine ⟨hk.typeOf hv.type, ?_, ?_⟩
  · rw [hk.word_eq hn (by rw [refSize]; omega) fun j _ _ => hS j, hlength]
  · rw [window_eq_of_byte_eq fun j hj => hk.bytes hn (by omega) (hS _), hv.bytes]

theorem length_eq (hv : h.Spells v bs) (hs : h.Sound) : Text.length h v = .ok bs.length := by
  have hend := hs.end_le_top (hs.size_string hv.type)
  have hword := readWord_eq (h := h) (v := v) (k := 0) (by rw [refSize] at hend; omega)
  rw [hv.length] at hword
  exact bind_eq_ok.2 ⟨⟨⟩, expectType_eq_ok.2 hv.type, hword⟩

theorem data_eq (hv : h.Spells v bs) (hs : h.Sound) : Text.data h v = .ok bs := by
  have hend := hs.end_le_top (hs.size_string hv.type)
  have hlength := hv.length
  refine bind_eq_ok.2 ⟨_, hv.length_eq hs, ?_⟩
  rw [bytes_eq (by omega), hv.bytes]

end Heap.Spells

/-- A new string is made of the bytes that were asked for. -/
theorem Text.ofBytes_spells (hr : Ready S h) (bs : List UInt8) :
    Meets (Path S) (Text.ofBytes bs) h fun v h' => ¬h.Live v ∧ h'.Spells v bs := by
  unfold Text.ofBytes
  refine Meets.bind (allocate_meets hr Builtin.string bs.length) fun v h₁ hpath hv => ?_
  have hs := (hr.along hpath).sound
  have hlen : h₁.word v 0 = bs.length := hv.length hs.descriptor_string rfl
  have hend := hs.end_le_top (hs.size_string hv.type)
  have hreach := hs.arena.reach
  have hwrite : Meets (Path S) (writeBytes (v.offset + refSize) bs) h₁ fun _ h' => h' = h₁.put v refSize bs :=
    writeBytes_meets (by omega) (.text hv.type hlen.symm (hr.fresh hv.fresh))
  refine Meets.bind hwrite fun _ h₂ hpath heq => Meets.pure ⟨hv.fresh, (hpath.keeps hs).typeOf hv.type, ?_, ?_⟩
  · have hword : (h₁.put v refSize bs).word v 0 = h₁.word v 0 := word_put_outside (.inl (Nat.le_refl _))
    rw [heq, hword, hlen]
  · rw [heq, window_put (by omega) rfl]

theorem Text.ofBytes_meets (hr : Ready S h) (bs : List UInt8) :
    Meets (Path S) (Text.ofBytes bs) h fun v h' => ¬h.Live v ∧ h'.typeOf v = .ok Builtin.string :=
  (ofBytes_spells hr bs).mono fun _ _ _ hv => ⟨hv.1, hv.2.type⟩

theorem Text.new_meets (hr : Ready S h) (s : String) :
    Meets (Path S) (Text.new s) h fun v h' => ¬h.Live v ∧ h'.typeOf v = .ok Builtin.string :=
  ofBytes_meets hr _

end TypedHeap
