import Chip8.Proofs.Supervised
import Chip8.Source

/-! A load is exact or has no effect. The stages of a load agree on its image, because an image that is
read again is itself; and the two bounds that they check, the size of a program and the top of memory,
coincide at the address where programs go.

* `Supervisor.loadFrom_eq`: the stages do together what one reading of the data does;
* `writeImage_exact`: what a write changes, and when it changes nothing;
* `loads_exactly`: both for every source, on a bare machine and on a supervised one. -/

namespace Chip8

/-! ## Reading an image again -/

theorem Source.read_ofImage (image : List UInt8) :
    (ofImage image).read = (.ok image, ofImage image) := by
  have hrange :
      (image.map fun byte => (byte.toNat : Int)).all (fun i => 0 ≤ i ∧ i ≤ 255) = true := by
    simp only [List.all_map, List.all_eq_true, Function.comp_apply, decide_eq_true_eq]
    intro byte _
    have := byte.toNat_lt
    omega
  have hbytes :
      (image.map fun byte => (byte.toNat : Int)).map (fun i => UInt8.ofNat i.toNat) = image := by
    simp [Function.comp_def]
  have hi : (ofImage image).data.image = .ok image := by
    show ProgramData.ofIntegers _ = _
    rw [ProgramData.ofIntegers, if_pos hrange, hbytes]
  rw [read, hi]
  rfl

namespace Machine

theorem writeFrom_eq (m : Machine) (address : Int) (src : Source) :
    m.writeFrom address src = (m.write address src.data, src.rest) := by
  rw [writeFrom, write, Source.read]
  cases src.data.image <;> rfl

theorem loadFrom_eq (m : Machine) (src : Source) : m.loadFrom src = (m.load src.data, src.rest) := by
  rw [loadFrom, load, Source.read]
  cases src.data.image with
  | error e => rfl
  | ok image =>
    simp only [writeFrom, Source.read_ofImage, bind, Except.bind, loadImage]
    split
    · rfl
    · cases m.writeImage programStart image <;> rfl

theorem loadFrom_ofImage (m : Machine) (image : List UInt8) :
    m.loadFrom (.ofImage image) = (m.loadImage image, .ofImage image) := by
  have hi : (Source.ofImage image).data.image = .ok image :=
    congrArg Prod.fst (Source.read_ofImage image)
  rw [loadFrom_eq, load, hi]
  rfl

end Machine

theorem Supervisor.loadFrom_eq (s : Supervisor) (src : Source) (name : Option String) :
    s.loadFrom src name = (s.load src.data name, src.rest) := by
  rw [loadFrom, load, Source.read]
  cases src.data.image with
  | error e => rfl
  | ok image =>
    simp only [Machine.loadFrom_ofImage, bind, Except.bind]
    cases s.machine.loadImage image <;> rfl

/-! ## What a write changes -/

namespace Machine

/-- The second machine is the first with an image in the memory from `address` on. -/
structure Written (m : Machine) (address : Nat) (image : List UInt8) (m' : Machine) : Prop where
  inside : ∀ k (hk : k < image.length), m'.memory.read (address + k) = image[k]
  outside : ∀ a, a < Memory.size → a < address ∨ address + image.length ≤ a →
    m'.memory.read a = m.memory.read a
  rest : m' = { m with memory := m'.memory }

theorem written_overlay (m : Machine) {address : Nat} {image : List UInt8}
    (h : address + image.length ≤ Memory.size) {memory : Memory}
    (hm : memory = m.memory.overlay address image.toArray.size fun k => image.toArray.getD k 0) :
    m.Written address image { m with memory } := by
  rw [Memory.size] at h
  constructor
  · intro k hk
    have ho : Memory.offset address ((address + k) % 4096) = k := Memory.offset_add _ _ (by omega)
    show memory.read (address + k) = _
    rw [hm, Memory.read_overlay, ho, List.size_toArray, if_pos hk]
    simp [hk]
  · intro a ha hout
    rw [Memory.size] at ha
    have ho : ¬ Memory.offset address (a % 4096) < image.length := by
      rw [Memory.offset]
      omega
    show memory.read a = _
    rw [hm, Memory.read_overlay, List.size_toArray, if_neg ho]
  · rfl

theorem writeImage_exact (m : Machine) {address : Int} {image : List UInt8}
    (h : ¬ (address < 0 ∨ Memory.size < address + image.length)) :
    ∃ m', m.writeImage address image = .ok m' ∧ m.Written address.toNat image m' := by
  rw [writeImage, if_neg h]
  exact ⟨_, rfl, m.written_overlay (by omega) rfl⟩

theorem loadImage_exact (m : Machine) {image : List UInt8} (h : image.length ≤ maxProgramSize) :
    ∃ m', m.loadImage image = .ok { m' with pc := UInt16.ofNat programStart } ∧
      m.Written programStart image m' := by
  have hb : ¬ ((programStart : Int) < 0 ∨ (Memory.size : Int) < programStart + image.length) := by
    simp only [maxProgramSize, Memory.size, programStart] at h ⊢
    omega
  obtain ⟨m', hw, hm⟩ := m.writeImage_exact hb
  refine ⟨m', ?_, hm⟩
  rw [loadImage, if_neg (by omega), hw]
  rfl

theorem loadImage_of_lt (m : Machine) {image : List UInt8} (h : maxProgramSize < image.length) :
    m.loadImage image = .error (.outOfBounds programStart image.length Memory.size) :=
  if_pos h

theorem load_of_image (m : Machine) {data : ProgramData} {image : List UInt8}
    (h : data.image = .ok image) : m.load data = m.loadImage image := by
  rw [load, h]
  rfl

end Machine

/-! ## Loads -/

namespace Supervisor

theorem load_of_image (s : Supervisor) {data : ProgramData} {image : List UInt8}
    (h : data.image = .ok image) (name : Option String) : s.load data name =
      match s.machine.loadImage image with
      | .ok machine =>
        let journal := s.journal.noteLoad image.length Machine.programStart name
        ({ s with machine, journal }, .ok ())
      | .error e => (s, .error e) := by
  simp only [load, h, bind, Except.bind]
  cases s.machine.loadImage image <;> rfl

theorem load_of_not_image (s : Supervisor) {data : ProgramData} {e : Error}
    (h : data.image = .error e) (name : Option String) : s.load data name = (s, .error e) := by
  simp only [load, h, bind, Except.bind]

/-- A load that is refused leaves the machine, the count of cycles, the tally of faults and the log. -/
theorem load_of_error {s : Supervisor} {data : ProgramData} {name : Option String} {e : Error}
    (h : (s.load data name).2 = .error e) : (s.load data name).1 = s := by
  cases hi : data.image with
  | error e' => rw [s.load_of_not_image hi]
  | ok image =>
    rw [s.load_of_image hi] at h ⊢
    cases hm : s.machine.loadImage image with
    | error e' => rfl
    | ok machine =>
      rw [hm] at h
      cases h

end Supervisor

namespace Source

/-- Writes and loads of data whose image is `image`. -/
structure Places (src : Source) (image : List UInt8) : Prop where
  writeRefused : ∀ (m : Machine) (address : Int), address < 0 ∨ 4096 < address + image.length →
    (m.writeFrom address src).1 = .error (.outOfBounds address image.length 4096)
  written : ∀ (m : Machine) (address : Int), ¬ (address < 0 ∨ 4096 < address + image.length) →
    ∃ m', (m.writeFrom address src).1 = .ok m' ∧ m.Written address.toNat image m'
  loadRefused : ∀ m : Machine, 3584 < image.length →
    (m.loadFrom src).1 = .error (.outOfBounds 0x200 image.length 4096)
  loaded : ∀ m : Machine, ¬ 3584 < image.length →
    ∃ m', (m.loadFrom src).1 = .ok { m' with pc := 0x200 } ∧ m.Written 0x200 image m'
  supervised : ∀ (s : Supervisor) (name : Option String), (s.loadFrom src name).1 =
    match (s.machine.loadFrom src).1 with
    | .ok machine =>
      ({ s with machine, journal := s.journal.noteLoad image.length 0x200 name }, .ok ())
    | .error e => (s, .error e)

theorem places_of_image {src : Source} {image : List UInt8} (h : src.data.image = .ok image) :
    src.Places image where
  writeRefused m address hb := by
    rw [Machine.writeFrom_eq, Machine.write, h]
    exact if_pos hb
  written m address hb := by
    rw [Machine.writeFrom_eq, Machine.write, h]
    exact m.writeImage_exact hb
  loadRefused m hl := by
    rw [Machine.loadFrom_eq, m.load_of_image h]
    exact m.loadImage_of_lt hl
  loaded m hl := by
    rw [Machine.loadFrom_eq, m.load_of_image h]
    exact m.loadImage_exact (Nat.le_of_not_lt hl)
  supervised s name := by
    rw [Supervisor.loadFrom_eq, Machine.loadFrom_eq, s.load_of_image h, s.machine.load_of_image h]
    rfl

/-- Loads from a source, whatever it holds. -/
structure LoadsExactly (src : Source) : Prop where
  places : ∀ image, src.data.image = .ok image → src.Places image
  invalid : ∀ (s : Supervisor) name e, src.data.image = .error e →
    (s.loadFrom src name).1 = (s, .error e)
  unchanged : ∀ (s : Supervisor) name e, (s.loadFrom src name).1.2 = .error e →
    (s.loadFrom src name).1.1 = s
  once : ∀ (s : Supervisor) name, s.loadFrom src name = (s.load src.data name, src.rest) ∧
    s.machine.loadFrom src = (s.machine.load src.data, src.rest)

theorem loads_exactly (src : Source) : src.LoadsExactly where
  places _ h := places_of_image h
  invalid s name e h := by
    rw [Supervisor.loadFrom_eq]
    exact s.load_of_not_image h name
  unchanged s name e h := by
    rw [Supervisor.loadFrom_eq] at h ⊢
    exact Supervisor.load_of_error h
  once s name := ⟨s.loadFrom_eq src name, s.machine.loadFrom_eq src⟩

/-- One addition, from a generator. -/
def generated : Source := .generator [.integer 0x6A, .integer 0x05]

theorem loads_exactly_generated :
    generated.data.image = .ok [0x6A, 0x05] ∧ generated.Places [0x6A, 0x05] :=
  ⟨rfl, (loads_exactly generated).places _ rfl⟩

end Source

end Chip8
