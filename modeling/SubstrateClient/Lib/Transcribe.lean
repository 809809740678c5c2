import SubstrateClient.Lib.Codec
import SubstrateClient.Lib.Cursor

/-!
# Transcribing with a codec

`transcribe c` decodes a value off the input of a cursor and writes its encoding to the output: it
copies bytes as long as the codec is canonical, and reads back any value that round-trips. The two
rules are about a transcription followed by a step that may depend on the value
(`Reads.transcribe`, `Accepts.transcribe`), which covers tags and counts.

A `StepClass` is a property of steps that a decoder built from transcriptions has as soon as its
codecs are of some kind: sequencing, transcribing and never returning a value keep it. To copy is
one (`copies_class`).
-/

namespace SubstrateClient.Lib

variable {ε α : Type}

/-- Decode a value and write it back. -/
def transcribe (conv : String → ε) (c : Codec α) (s : Cursor UInt8) :
    Outcome ε (α × Cursor UInt8) := do
  let (v, input) ← Outcome.ofExcept conv (c.decode s.input)
  .ok (v, ⟨input, s.output ++ c.encode v⟩)

theorem transcribe_eq_ok {conv : String → ε} {c : Codec α} {s s' : Cursor UInt8} {v : α} :
    transcribe conv c s = .ok (v, s') ↔
      c.decode s.input = .ok (v, s'.input) ∧ s'.output = s.output ++ c.encode v := by
  obtain ⟨input', output'⟩ := s'
  unfold transcribe
  cases c.decode s.input with
  | error e => simp
  | ok r =>
    obtain ⟨u, input⟩ := r
    simp only [Outcome.ofExcept_ok, Outcome.ok_bind, Outcome.ok.injEq, Prod.mk.injEq,
      Cursor.mk.injEq, Except.ok.injEq]
    constructor
    · rintro ⟨rfl, rfl, rfl⟩
      exact ⟨⟨rfl, rfl⟩, rfl⟩
    · rintro ⟨⟨rfl, rfl⟩, rfl⟩
      exact ⟨rfl, rfl, rfl⟩

/-- A transcription neither panics nor needs fuel. -/
theorem transcribe_returns (conv : String → ε) (c : Codec α) (s : Cursor UInt8) :
    (transcribe conv c s).Returns := by
  unfold transcribe
  exact Outcome.returns_bind.mpr ⟨Outcome.returns_ofExcept _ _, fun _ _ => trivial⟩

theorem transcribe_encode {conv : String → ε} {c : Codec α} {v : α} (h : c.RoundTripsAt v)
    (rest out : Bytes) :
    transcribe conv c ⟨c.encode v ++ rest, out⟩ = .ok (v, ⟨rest, out ++ c.encode v⟩) :=
  transcribe_eq_ok.mpr ⟨h rest, rfl⟩

/-- The words a transcription and its continuation read: the encoding of a value that `P` holds of,
then a word of the continuation's language. -/
def readWords (c : Codec α) (P : α → Prop) (L : α → Language UInt8) : Language UInt8 :=
  {w | ∃ v, P v ∧ ∃ u ∈ L v, w = c.encode v ++ u}

/-- **Soundness**: a canonical codec copies what it decodes. -/
theorem Reads.transcribe {conv : String → ε} {c : Codec α} {P : α → Prop}
    {g : α → Step ε UInt8} {L : α → Language UInt8} (hc : c.Canonical)
    (hP : ∀ bs v rest, c.decode bs = .ok (v, rest) → P v) (hg : ∀ v, Reads (g v) (L v)) :
    Reads (fun s => transcribe conv c s >>= fun r => g r.1 r.2) (readWords c P L) := by
  intro s s' hs
  obtain ⟨⟨v, t⟩, ht, hs'⟩ := Outcome.bind_eq_ok.mp hs
  obtain ⟨hd, ho⟩ := transcribe_eq_ok.mp ht
  obtain ⟨u, hu, hui, huo⟩ := hg v t s' hs'
  refine ⟨c.encode v ++ u, ⟨v, hP _ _ _ hd, u, hu, rfl⟩, ?_, ?_⟩
  · rw [hc _ _ _ hd, hui, List.append_assoc]
  · rw [huo, ho, List.append_assoc]

theorem Copies.transcribe {conv : String → ε} {c : Codec α} {g : α → Step ε UInt8}
    (hc : c.Canonical) (hg : ∀ v, Copies (g v)) :
    Copies (fun s => transcribe conv c s >>= fun r => g r.1 r.2) :=
  (Reads.transcribe (P := fun _ => True) hc (fun _ _ _ _ => trivial) hg).copies

/-- **Completeness**: the encoding of a value that round-trips is read back, whatever follows. -/
theorem Accepts.transcribe (conv : String → ε) {c : Codec α} {g : α → Step ε UInt8} {v : α}
    {w : Bytes} (hv : c.RoundTripsAt v) (hg : Accepts (g v) w) :
    Accepts (fun s => transcribe conv c s >>= fun r => g r.1 r.2) (c.encode v ++ w) := by
  intro rest out
  simp only [List.append_assoc]
  rw [transcribe_encode hv, Outcome.ok_bind, hg, List.append_assoc]

/-! ## Properties that every construct keeps -/

/-- A property of steps that sequencing keeps, and transcribing with codecs of the kind `K`; a step
that never returns a value has it. -/
structure StepClass (ε : Type) (K : ∀ α : Type, Codec α → Prop) (Q : Step ε UInt8 → Prop) :
    Prop where
  ok : Q .ok
  bind : ∀ {f g : Step ε UInt8}, Q f → Q g → Q fun s => f s >>= g
  of_not_ok : ∀ {f : Step ε UInt8}, (∀ s s', f s ≠ .ok s') → Q f
  transcribe : ∀ {α : Type} {conv : String → ε} {c : Codec α} {g : α → Step ε UInt8}, K α c →
    (∀ v, Q (g v)) → Q fun s => transcribe conv c s >>= fun r => g r.1 r.2

namespace StepClass

variable {ι : Type} {K : ∀ α : Type, Codec α → Prop} {Q : Step ε UInt8 → Prop}

/-- A loop. -/
theorem forEach (hQ : StepClass ε K Q) {f : ι → Step ε UInt8} :
    ∀ {l : List ι}, (∀ x ∈ l, Q (f x)) → Q (forEach l f)
  | [], _ => hQ.ok
  | x :: _, h =>
    hQ.bind (h x List.mem_cons_self) (hQ.forEach fun y hy => h y (List.mem_cons_of_mem x hy))

/-- A refusal. -/
theorem err (hQ : StepClass ε K Q) (e : ε) : Q fun _ => .err e :=
  hQ.of_not_ok fun _ _ h => by cases h

/-- A lookup before a step takes nothing off the input. -/
theorem okOr (hQ : StepClass ε K Q) {x : Option α} {e : ε} {f : α → Step ε UInt8}
    (h : ∀ a, x = some a → Q (f a)) : Q fun s => Outcome.okOr x e >>= fun a => f a s := by
  cases x with
  | none => exact hQ.err e
  | some a => exact h a rfl

end StepClass

/-- To copy is a class, over the canonical codecs. -/
theorem copies_class : StepClass ε (fun _ => Codec.Canonical) Copies where
  ok := reads_ok.copies
  bind := Copies.bind
  of_not_ok := reads_of_not_ok ⊤
  transcribe := Copies.transcribe

end SubstrateClient.Lib
