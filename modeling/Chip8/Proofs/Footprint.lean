import Chip8.Proofs.Patterns

/-! What an instruction writes. `same_perform` says that a part outside of `Instruction.Writes` stays as
it is, by one lemma for each kind of write; `among_of_writes` that a part inside has the word of the
instruction in its table. Together the tables bound what each word can change. -/

namespace Chip8

namespace Part

theorem Same.trans {m₁ m₂ m₃ : Machine} {part : Part} (h : part.Same m₁ m₂)
    (h' : part.Same m₂ m₃) : part.Same m₁ m₃ := by
  cases part with
  | wait => exact ⟨h'.1.trans h.1, h'.2.trans h.2⟩
  | _ => exact Eq.trans h' h

section Writes

variable {part : Part} (m : Machine)

theorem same_withPc (pc : UInt16) : part.Same m { m with pc } := by
  cases part with
  | wait => exact ⟨rfl, rfl⟩
  | _ => rfl

theorem same_haltWith (fault : Fault) : part.Same m (m.haltWith fault) := by
  cases part with
  | wait => exact ⟨rfl, rfl⟩
  | _ => rfl

theorem same_withMemory (h : part ≠ memory) (memory : Memory) : part.Same m { m with memory } := by
  cases part with
  | memory => exact absurd rfl h
  | wait => exact ⟨rfl, rfl⟩
  | _ => rfl

theorem same_withScreen (h : ¬ (part = screen ∨ part = redraw)) (screen : Screen) (redraw : Bool) :
    part.Same m { m with screen, redraw } := by
  cases part with
  | screen => exact absurd (.inl rfl) h
  | redraw => exact absurd (.inr rfl) h
  | wait => exact ⟨rfl, rfl⟩
  | _ => rfl

theorem same_withStack (h : part ≠ stack) (stack : CallStack) : part.Same m { m with stack } := by
  cases part with
  | stack => exact absurd rfl h
  | wait => exact ⟨rfl, rfl⟩
  | _ => rfl

theorem same_withDelay (h : part ≠ delay) (delay : UInt8) : part.Same m { m with delay } := by
  cases part with
  | delay => exact absurd rfl h
  | wait => exact ⟨rfl, rfl⟩
  | _ => rfl

theorem same_withSound (h : part ≠ sound) (sound : UInt8) : part.Same m { m with sound } := by
  cases part with
  | sound => exact absurd rfl h
  | wait => exact ⟨rfl, rfl⟩
  | _ => rfl

theorem same_withRandom (h : part ≠ random) (rng : Random.Key) : part.Same m { m with rng } := by
  cases part with
  | random => exact absurd rfl h
  | wait => exact ⟨rfl, rfl⟩
  | _ => rfl

theorem same_withIndex (h : part ≠ index) (index : UInt16) : part.Same m { m with index } := by
  cases part with
  | index => exact absurd rfl h
  | wait => exact ⟨rfl, rfl⟩
  | _ => rfl

theorem same_awaitKey (h : part ≠ wait) (x : Register) : part.Same m (m.awaitKey x) := by
  cases part with
  | wait => exact absurd rfl h
  | _ => rfl

theorem same_withRegisters (registers : Registers)
    (h : ∀ r, part = register r → { m with registers }.register r = m.register r) :
    part.Same m { m with registers } := by
  cases part with
  | register r => exact h r rfl
  | wait => exact ⟨rfl, rfl⟩
  | _ => rfl

theorem same_setRegister {x : Register} (h : part ≠ register x) (byte : UInt8) :
    part.Same m (m.setRegister x byte) := by
  refine same_withRegisters m _ fun r hr => ?_
  have hx : x ≠ r := by rintro rfl; exact h hr
  exact (m.register_setRegister x r byte).trans (if_neg hx)

end Writes

variable {m m' : Machine} {part : Part}

theorem Same.next (h : part.Same m m') : part.Same m m'.next :=
  h.trans (same_withPc m' _)

theorem same_operate {op : Operation} {x y : Register}
    (h : ¬ (Instruction.operate op x y).Writes part) : part.Same m (m.operate op x y) := by
  obtain ⟨hx, hf⟩ := not_or.1 h
  refine Same.trans ?_ (same_setRegister _ hx _)
  cases op with
  | copy | or | and | xor =>
    -- the flag is written here too, but with the value it had
    refine same_withRegisters m _ fun r _ => ?_
    refine (m.register_setRegister flagRegister r (m.register flagRegister)).trans ?_
    split
    · subst r; rfl
    · rfl
  | _ => exact same_setRegister m (fun he => hf ⟨trivial, he⟩) _

theorem same_loadRegisters {x : Register} (h : ∀ r : Register, r.val ≤ x.val → part ≠ register r) :
    part.Same m (m.loadRegisters x) := by
  refine same_withRegisters m _ fun r hr => ?_
  simp only [Machine.register_eq, Vector.getElem_ofFn]
  exact if_neg fun hle => h r hle hr

theorem same_perform {i : Instruction} (h : ¬ i.Writes part) : part.Same m (m.perform i) := by
  cases i with
  | jump | jumpOffset => exact same_withPc m _
  | skipEqualByte | skipUnequalByte | skipEqual | skipUnequal | skipPressed | skipReleased =>
    exact same_withPc m _
  | clear => exact (same_withScreen m h _ _).next
  | ret =>
    rw [Machine.perform, Machine.ret]
    cases m.stack.pop? with
    | none => exact same_haltWith m _
    | some popped => exact ((same_withStack m h _).trans (same_withPc _ _)).next
  | call a =>
    rw [Machine.perform, Machine.call]
    cases m.stack.push? m.pc with
    | none => exact same_haltWith m _
    | some stack => exact (same_withStack m h _).trans (same_withPc _ _)
  | setByte x b | addByte x b | readDelay x => exact (same_setRegister m h _).next
  | operate op x y => exact (same_operate h).next
  | setIndex a | glyph x => exact (same_withIndex m h _).next
  | random x b =>
    obtain ⟨hrandom, hx⟩ := not_or.1 h
    exact ((same_setRegister m hx _).trans (same_withRandom _ hrandom _)).next
  | draw x y n =>
    obtain ⟨hscreen, hf⟩ := not_or.1 h
    exact ((same_setRegister m hf _).trans (same_withScreen _ hscreen _ _)).next
  | awaitKey x => exact same_awaitKey m h x
  | setDelay x => exact (same_withDelay m h _).next
  | setSound x => exact (same_withSound m h _).next
  | addIndex x =>
    obtain ⟨hindex, hf⟩ := not_or.1 h
    exact ((same_setRegister m hf _).trans (same_withIndex _ hindex _)).next
  | digits x => exact (same_withMemory m h _).next
  | store x =>
    obtain ⟨hmemory, hindex⟩ := not_or.1 h
    exact ((same_withMemory m hmemory _).trans (same_withIndex _ hindex _)).next
  | load x =>
    obtain ⟨hindex, hr⟩ := not_or.1 h
    have hload : part.Same m (m.loadRegisters x) :=
      same_loadRegisters fun r hle he => hr ⟨r, hle, he⟩
    exact (hload.trans (same_withIndex _ hindex _)).next

/-! ## The tables name the words of those instructions -/

theorem among_pattern {i : Instruction} {ps : List Pattern} (h : i.pattern ∈ ps) :
    Pattern.Among ps i.encode :=
  ⟨i.pattern, h, i.pattern_matches⟩

theorem among_result {i : Instruction} {x : Register} (hp : i.pattern ∈ resultPatterns)
    (hx : i.encode / 0x100 % 16 = x.val) : Pattern.Among (register x).writers i.encode := by
  refine ⟨i.pattern.withX x.val, ?_, i.pattern_matches.withX hx⟩
  simp only [writers, List.append_assoc, List.mem_append]
  exact .inl (List.mem_map_of_mem hp)

theorem among_flag {i : Instruction} (hp : i.pattern ∈ flagPatterns) :
    Pattern.Among (register flagRegister).writers i.encode := by
  refine among_pattern ?_
  simp only [writers, List.mem_append, ↓reduceIte]
  exact .inr hp

theorem among_load {r x : Register} (h : r.val ≤ x.val) :
    Pattern.Among (register r).writers (Instruction.load x).encode := by
  refine ⟨loadPattern.withX x.val, ?_, ?_⟩
  · simp only [writers, List.mem_append, List.mem_map, List.mem_filter, List.mem_range,
      decide_eq_true_eq]
    exact .inl (.inr ⟨x.val, ⟨x.isLt, h⟩, rfl⟩)
  · exact (Instruction.pattern_matches (.load x)).withX (Instruction.pack_x _ x (by decide))

theorem among_operate {op : Operation} {x y : Register}
    (h : (Instruction.operate op x y).Writes part) :
    Pattern.Among part.writers (Instruction.operate op x y).encode := by
  rcases h with rfl | ⟨hr, rfl⟩
  · have hy := y.isLt
    have ho := op.selector_lt
    refine among_result ?_ (Instruction.pack_x _ x (by omega))
    cases op <;> simp [Instruction.pattern, Operation.selector, resultPatterns]
  · refine among_flag ?_
    cases op with
    | copy | or | and | xor => exact hr.elim
    | _ => simp [Instruction.pattern, Operation.selector, flagPatterns]

theorem among_of_writes {i : Instruction} (h : i.Writes part) :
    Pattern.Among part.writers i.encode := by
  cases i with
  | jump | jumpOffset => exact h.elim
  | skipEqualByte | skipUnequalByte | skipEqual | skipUnequal | skipPressed | skipReleased =>
    exact h.elim
  | ret | call | setIndex | glyph | awaitKey | setDelay | setSound | digits =>
    obtain rfl := h
    exact among_pattern (by simp [Instruction.pattern, writers])
  | clear => rcases h with rfl | rfl <;> exact among_pattern (by simp [Instruction.pattern, writers])
  | setByte x b | addByte x b =>
    obtain rfl := h
    have hb := b.toNat_lt
    exact among_result (by simp [Instruction.pattern, resultPatterns])
      (Instruction.pack_x _ x (by omega))
  | readDelay x =>
    obtain rfl := h
    exact among_result (by simp [Instruction.pattern, resultPatterns])
      (Instruction.pack_x _ x (by decide))
  | operate op x y => exact among_operate h
  | random x b =>
    rcases h with rfl | rfl
    · exact among_pattern (by simp [Instruction.pattern, writers])
    · have hb := b.toNat_lt
      exact among_result (by simp [Instruction.pattern, resultPatterns])
        (Instruction.pack_x _ x (by omega))
  | draw x y n =>
    rcases h with (rfl | rfl) | rfl
    · exact among_pattern (by simp [Instruction.pattern, writers])
    · exact among_pattern (by simp [Instruction.pattern, writers])
    · exact among_flag (by simp [Instruction.pattern, flagPatterns])
  | addIndex x =>
    rcases h with rfl | rfl
    · exact among_pattern (by simp [Instruction.pattern, writers])
    · exact among_flag (by simp [Instruction.pattern, flagPatterns])
  | store x =>
    rcases h with rfl | rfl <;> exact among_pattern (by simp [Instruction.pattern, writers])
  | load x =>
    rcases h with rfl | ⟨r, hr, rfl⟩
    · exact among_pattern (by simp [Instruction.pattern, writers])
    · exact among_load hr

end Part

end Chip8
