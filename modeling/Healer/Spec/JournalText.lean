import Healer.Spec.Journal

/-! The lines of the journal as `encoding/json` writes them, for ids and times of characters
that it does not escape (a command id is a UUID, a time is RFC 3339). The reader accepts what
the writer writes: `json.Unmarshal` reads more, but none of it can stand in a journal. -/

namespace Healer

open List Option

namespace JournalText

def ascii (s : String) : List UInt8 := s.toList.map fun ch => UInt8.ofNat ch.toNat

def quote : UInt8 := 34

def openBrace : UInt8 := 123

def closeBrace : UInt8 := 125

/-- Letters, digits, colon, hyphen and full stop. -/
def plain (b : UInt8) : Bool :=
  (48 ≤ b && b ≤ 58) || (65 ≤ b && b ≤ 90) || (97 ≤ b && b ≤ 122) || b == 45 || b == 46

def Text := { t : List UInt8 // t.all plain = true }

instance : DecidableEq Text := inferInstanceAs (DecidableEq { t : List UInt8 // t.all plain = true })

def status : JournalStatus → List UInt8
  | .received => ascii "received"
  | .running => ascii "running"
  | .completed => ascii "completed"

def openID : List UInt8 := openBrace :: ascii "\"command_id\":\""

def openStatus : List UInt8 := ascii "\",\"status\":\""

def openAt : List UInt8 := ascii "\",\"recorded_at\":\""

def close : List UInt8 := [quote, closeBrace]

def marshal (e : JournalEntry Text Text) : List UInt8 :=
  openID ++ (e.commandID.1 ++ (openStatus ++ (status e.status ++ (openAt ++ (e.recordedAt.1 ++ close)))))

/-- The bytes after `mark` up to the next quote, and what follows them. -/
def readField (mark b : List UInt8) : Option (List UInt8 × List UInt8) :=
  if mark.isPrefixOf b then some ((b.drop mark.length).span (· != quote)) else none

def readStatus (b : List UInt8) : Option JournalStatus :=
  [.received, .running, .completed].find? fun st => status st == b

def readEntry (id st time rest : List UInt8) : Option (JournalEntry Text Text) :=
  if rest = close then
    if h : id.all plain = true ∧ time.all plain = true then
      (readStatus st).map fun st => ⟨⟨id, h.1⟩, st, ⟨time, h.2⟩⟩
    else none
  else none

def unmarshal (b : List UInt8) : Option (JournalEntry Text Text) :=
  (readField openID b).bind fun id =>
    (readField openStatus id.2).bind fun st =>
      (readField openAt st.2).bind fun time => readEntry id.1 st.1 time.1 time.2

def json : Json Text Text := ⟨marshal, unmarshal⟩

theorem readField_append (mark x rest : List UInt8) (hx : quote ∉ x) (hrest : rest.head? = some quote) :
    readField mark (mark ++ (x ++ rest)) = some (x, rest) := by
  have hpre : mark.isPrefixOf (mark ++ (x ++ rest)) = true := by simp [List.isPrefixOf_iff_prefix]
  have hall : ∀ b ∈ x, (b != quote) = true := by
    intro b hb
    simpa using fun e : b = quote => hx (e ▸ hb)
  rw [readField, if_pos hpre, drop_left, span_eq_takeWhile_dropWhile]
  rw [takeWhile_append_of_pos hall, dropWhile_append_of_pos hall]
  cases rest with
  | nil => cases hrest
  | cons r rest =>
    obtain rfl : r = quote := Option.some.inj hrest
    simp

theorem readField_eq {mark b x rest : List UInt8} (h : readField mark b = some (x, rest)) :
    b = mark ++ (x ++ rest) := by
  unfold readField at h
  split at h
  · rename_i hpre
    obtain ⟨t, rfl⟩ := isPrefixOf_iff_prefix.1 hpre
    rw [drop_left, span_eq_takeWhile_dropWhile] at h
    obtain ⟨rfl, rfl⟩ := Prod.mk.inj (Option.some.inj h)
    rw [takeWhile_append_dropWhile]
  · cases h

theorem readStatus_status (st : JournalStatus) : readStatus (status st) = some st := by
  cases st <;> decide

theorem readStatus_eq {b : List UInt8} {st : JournalStatus} (h : readStatus b = some st) :
    b = status st := by
  have := List.find?_some h
  exact (by simpa using this : status st = b).symm

theorem not_mem_of_plain {t : Text} {b : UInt8} (hb : plain b = false) : b ∉ t.1 := by
  intro hmem
  rw [all_eq_true.1 t.2 b hmem] at hb
  cases hb

theorem quote_not_mem_status (st : JournalStatus) : quote ∉ status st := by
  cases st <;> decide

theorem unmarshal_marshal (e : JournalEntry Text Text) : unmarshal (marshal e) = some e := by
  obtain ⟨id, st, time⟩ := e
  have hid : quote ∉ id.1 := not_mem_of_plain (by decide)
  have htime : quote ∉ time.1 := not_mem_of_plain (by decide)
  rw [unmarshal, marshal, readField_append _ _ _ hid (by rfl), bind_some,
    readField_append _ _ _ (quote_not_mem_status st) (by rfl), bind_some,
    readField_append _ _ _ htime (by rfl), bind_some]
  rw [readEntry, if_pos rfl, dif_pos ⟨id.2, time.2⟩, readStatus_status]
  rfl

/-- The reader accepts only what the writer writes. -/
theorem marshal_of_unmarshal {b : List UInt8} {e : JournalEntry Text Text} (h : unmarshal b = some e) :
    b = marshal e := by
  obtain ⟨⟨id, b1⟩, hid, h⟩ := bind_eq_some_iff.1 h
  obtain ⟨⟨st, b2⟩, hst, h⟩ := bind_eq_some_iff.1 h
  obtain ⟨⟨time, b3⟩, htime, h⟩ := bind_eq_some_iff.1 h
  dsimp only at hst htime h
  rw [readField_eq hid, readField_eq hst, readField_eq htime]
  unfold readEntry at h
  split at h
  · rename_i hclose
    split at h
    · obtain ⟨st', hst', rfl⟩ := map_eq_some_iff.1 h
      rw [hclose, readStatus_eq hst']
      rfl
    · cases h
  · cases h

/-- What stands between the braces. -/
def inner (e : JournalEntry Text Text) : List UInt8 :=
  ascii "\"command_id\":\"" ++ (e.commandID.1 ++ (openStatus ++ (status e.status ++
    (openAt ++ (e.recordedAt.1 ++ [quote])))))

theorem marshal_eq (e : JournalEntry Text Text) :
    marshal e = openBrace :: (inner e ++ [closeBrace]) := by
  simp [marshal, inner, openID, close]

/-- The bytes that would end a line or a JSON object. -/
def structural : List UInt8 := [newline, carriageReturn, openBrace, closeBrace]

theorem not_mem_status (st : JournalStatus) : ∀ b ∈ structural, b ∉ status st := by
  cases st <;> decide +kernel

theorem not_mem_marks :
    ∀ b ∈ structural, b ∉ ascii "\"command_id\":\"" ++ openStatus ++ openAt ++ [quote] := by
  decide +kernel

theorem not_mem_inner (e : JournalEntry Text Text) : ∀ b ∈ structural, b ∉ inner e := by
  intro b hb hmem
  have hplain : plain b = false := (by decide +kernel : ∀ b ∈ structural, plain b = false) b hb
  have hmarks := not_mem_marks b hb
  simp only [inner, mem_append] at hmem hmarks
  rcases hmem with h | h | h | h | h | h | h
  · exact hmarks (.inl (.inl (.inl h)))
  · exact not_mem_of_plain hplain h
  · exact hmarks (.inl (.inl (.inr h)))
  · exact not_mem_status _ b hb h
  · exact hmarks (.inl (.inr h))
  · exact not_mem_of_plain hplain h
  · exact hmarks (.inr h)

theorem not_mem_marshal (e : JournalEntry Text Text) {b : UInt8} (hb : b ∈ structural)
    (ho : b ≠ openBrace) (hc : b ≠ closeBrace) : b ∉ marshal e := by
  rw [marshal_eq]
  simpa using ⟨ho, not_mem_inner e b hb, hc⟩

/-- The closing brace is the last byte, so no start of an entry is itself an entry. -/
theorem unmarshal_torn (e : JournalEntry Text Text) (f : List UInt8) (hpre : f <+: marshal e)
    (hne : f ≠ marshal e) : unmarshal f = none := by
  by_contra hsome
  obtain ⟨e', he'⟩ := ne_none_iff_exists'.1 hsome
  obtain rfl := marshal_of_unmarshal he'
  obtain ⟨g, hg⟩ := hpre
  have hg0 : g ≠ [] := by
    rintro rfl
    exact hne (by simpa using hg)
  rw [← dropLast_append_getLast hg0, marshal_eq e, ← append_assoc, ← cons_append] at hg
  have hinit := (append_inj' hg rfl).1
  have hmem : closeBrace ∈ openBrace :: inner e := by
    rw [← hinit, marshal_eq]
    simp
  rcases mem_cons.1 hmem with h | h
  · exact absurd h (by decide)
  · exact not_mem_inner e closeBrace (by decide) h

/-- The opening brace is the first byte, so two starts of entries are not one entry. -/
theorem unmarshal_joined (fs : List (List UInt8)) (hfs : ∀ f ∈ fs, json.Fragment f)
    (hlen : 2 ≤ fs.length) : unmarshal fs.flatten = none := by
  by_contra hsome
  obtain ⟨e, he⟩ := ne_none_iff_exists'.1 hsome
  have heq := marshal_of_unmarshal he
  rcases fs with _ | ⟨f, _ | ⟨g, gs⟩⟩
  · simp at hlen
  · simp at hlen
  obtain ⟨hf, -⟩ := hfs f (by simp)
  obtain ⟨hg, e', hpre⟩ := hfs g (by simp)
  obtain ⟨x, f', rfl⟩ := exists_cons_of_ne_nil hf
  obtain ⟨y, g', rfl⟩ := exists_cons_of_ne_nil hg
  have hy : y = openBrace := by
    have h : y :: g' <+: marshal e' := hpre
    rw [marshal_eq] at h
    exact (cons_prefix_cons.1 h).1
  rw [marshal_eq] at heq
  have htail := (List.cons.inj heq).2
  have hmem : openBrace ∈ inner e ++ [closeBrace] := by
    rw [← htail]
    simp [hy]
  rcases mem_append.1 hmem with h | h
  · exact not_mem_inner e openBrace (by decide) h
  · exact absurd h (by decide)

theorem json_lawful : json.Lawful where
  nonempty e := by
    change marshal e ≠ []
    rw [marshal_eq]
    exact cons_ne_nil _ _
  no_newline e := not_mem_marshal e (by decide) (by decide) (by decide)
  no_carriageReturn e := not_mem_marshal e (by decide) (by decide) (by decide)
  unmarshal_marshal := unmarshal_marshal
  torn := unmarshal_torn
  joined := unmarshal_joined

end JournalText

end Healer
