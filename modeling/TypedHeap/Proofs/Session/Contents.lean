import TypedHeap.Proofs.Session.RoundTrip

/-!
# Boxes and strings along a run

What a box or a string was made of is what it says from then on. Objects and arrays come and go around it, are
filled and moved, and the collector sets its flags; no operation is about the payload of a box or of a string.

* `Session.final_of_boxes`, `Session.final_of_spells`: their payloads are final.

Main result: `Session.Reachable.contents_last`.
-/

namespace TypedHeap

open TypedHeap.Action (Meets)
open Heap

namespace Session

variable {r s t : Session} {v : Value} {k : ScalarKind} {x : k.Carrier} {bs : List UInt8}

/-! ## Final payloads -/

theorem final_of_boxes (hs : s.Sound) (hv : s.heap.Boxes v k x) : s.Final v :=
  ⟨_, descriptor_eq_ok.2 ⟨_, hv.type, Layouts.descriptor_scalar hs.heap.registry.types k⟩, trivial⟩

theorem final_of_spells (hs : s.Sound) (hv : s.heap.Spells v bs) : s.Final v :=
  ⟨_, descriptor_eq_ok.2 ⟨_, hv.type, hs.heap.descriptor_string⟩, trivial⟩

/-- A box stays the box of its scalar. A symbol is read from its key, which goes on to stand for it. -/
theorem Leads.boxes (h : Leads s t) (hs : s.Sound) (hv : s.heap.Boxes v k x) : t.heap.Boxes v k x :=
  hv.keeps hs.heap (h.keeps hs) (fun _ hopen => hopen (final_of_boxes hs hv)) (h.symbols hs)

/-- A string stays the string of its bytes. -/
theorem Leads.spells (h : Leads s t) (hs : s.Sound) (hv : s.heap.Spells v bs) : t.heap.Spells v bs :=
  hv.keeps hs.heap (h.keeps hs) fun _ hopen => hopen (final_of_spells hs hv)

/-! ## New boxes and strings -/

theorem Reachable.boxes_next (hs : Reachable s) (hv : ((Operation.box k x).perform.runOn s.heap).1 = .ok v) :
    (s.next (.box k x)).heap.Boxes v k x := by
  have hnext : Reachable (s.next (.box k x)) := hs.next _ (allows_of_none rfl)
  have hready : Ready (fun _ _ => True) s.heap := ⟨hs.sound.heap, fun _ _ => trivial⟩
  have hnew : Meets (Path fun _ _ => True) (Operation.box k x).perform s.heap _ := Box.new_meets hready k x
  obtain ⟨-, -, hencodes⟩ := hnew.answer v hv
  rw [← next_heap] at hencodes
  exact boxes_of_encodes hencodes hnext.sound.heap hnext.orderly.keys

theorem Reachable.spells_next (hs : Reachable s)
    (hv : ((Operation.newStringOfBytes bs).perform.runOn s.heap).1 = .ok v) :
    (s.next (.newStringOfBytes bs)).heap.Spells v bs := by
  have hready : Ready (fun _ _ => True) s.heap := ⟨hs.sound.heap, fun _ _ => trivial⟩
  have hnew : Meets (Path fun _ _ => True) (Operation.newStringOfBytes bs).perform s.heap _ :=
    Text.ofBytes_spells hready bs
  rw [next_heap]
  exact (hnew.answer v hv).2

/-- A new box has the type of its kind and gives its scalar back, and says that it is no box of any other kind,
whatever operations follow. A new string has the length and the bytes that it was made of, whatever operations
follow. -/
theorem Reachable.contents_last (hs : Reachable s) :
    (∀ (k : ScalarKind) (x : k.Carrier) v, ((Operation.box k x).perform.runOn s.heap).1 = .ok v →
      ∀ t, Leads (s.next (.box k x)) t →
        t.heap.typeOf v = .ok k.type ∧ Box.read k t.heap v = .ok x ∧
        ∀ j, j ≠ k → Box.read j t.heap v = .error (.typeMismatch j.name k.name)) ∧
    ∀ bs v, ((Operation.newStringOfBytes bs).perform.runOn s.heap).1 = .ok v →
      ∀ t, Leads (s.next (.newStringOfBytes bs)) t →
        Text.length t.heap v = .ok bs.length ∧ Text.data t.heap v = .ok bs := by
  refine ⟨fun k x v hv t h => ?_, fun bs v hv t h => ?_⟩
  · have hnext := next_sound hs.sound (.box k x) (allows_of_none rfl)
    have hbox : t.heap.Boxes v k x := h.boxes hnext (hs.boxes_next hv)
    have ht := (h.sound hnext).heap
    exact ⟨hbox.type, hbox.read_eq ht, fun j hne => hbox.read_of_ne ht hne⟩
  · have hnext := next_sound hs.sound (.newStringOfBytes bs) (allows_of_none rfl)
    have hstring : t.heap.Spells v bs := h.spells hnext (hs.spells_next hv)
    have ht := (h.sound hnext).heap
    exact ⟨hstring.length_eq ht, hstring.data_eq ht⟩

/-- A vector of three numbers. -/
def numbered : Session := start ⟨64, 4096⟩ .off |>.next (.newVector Builtin.float32 3)

/-- The vector moves behind what was made after it, at which the collector looks. -/
def overtake (s : Session) : Session :=
  s.next (.resize (object 48) 40) |>.next (.setGcBits (object 112) ⟨true, true, false, false⟩)

theorem leads_overtake (s : Session) : Leads s (overtake s) :=
  (Leads.refl.next _ (allows_of_none rfl)).next _ (allows_of_none rfl)

/-- A symbol that nobody has heard of before, and bytes that are no text. -/
theorem contents_last_overtaken :
    Reachable numbered ∧
      ((Operation.box .symbol "unheard of").perform.runOn numbered.heap).1 = .ok (object 112) ∧
      Box.read .symbol (overtake (numbered.next (.box .symbol "unheard of"))).heap (object 112) = .ok "unheard of" ∧
      Box.read .char (overtake (numbered.next (.box .symbol "unheard of"))).heap (object 112) =
        .error (.typeMismatch "Char" "Symbol") ∧
      ((Operation.newStringOfBytes [0xff, 0, 0x80]).perform.runOn numbered.heap).1 = .ok (object 112) ∧
      Text.data (overtake (numbered.next (.newStringOfBytes [0xff, 0, 0x80]))).heap (object 112) =
        .ok [0xff, 0, 0x80] := by
  have hs : Reachable numbered := (reachable_start _ _).next _ nofun
  have hbox : ((Operation.box .symbol "unheard of").perform.runOn numbered.heap).1 = .ok (object 112) := by
    decide +kernel
  have hstring : ((Operation.newStringOfBytes [0xff, 0, 0x80]).perform.runOn numbered.heap).1 = .ok (object 112) := by
    decide +kernel
  obtain ⟨hboxes, hstrings⟩ := hs.contents_last
  obtain ⟨-, hread, hother⟩ := hboxes .symbol "unheard of" _ hbox _ (leads_overtake _)
  exact ⟨hs, hbox, hread, hother .char (by decide), hstring, (hstrings _ _ hstring _ (leads_overtake _)).2⟩

end Session

end TypedHeap
