import UAssign.Go.Base64
import UAssign.Go.Copy

/-!
# `base64.NewDecoder`

The decoder reads up to 1024 characters at a time, leaves out the line breaks, and decodes all
whole quanta of them by themselves, so that padding at the end of a piece is forgotten with the next
one. It yields the bytes of contents that `Decode` takes (`newDecoder_ends`), and of some others
(`newDecoder_joined`).
-/

namespace UAssign.Base64

/-! ## The decoder -/

/-- The errors that its reads end with: `io.EOF`, `io.ErrUnexpectedEOF` and `CorruptInputError`. -/
inductive Fault where
  | eof
  | unexpectedEOF
  | corrupt
  deriving DecidableEq

/-- `newlineFilteringReader`. -/
def unbroken (cs : List UInt8) : List UInt8 := cs.filter fun c => c ≠ 0x0A ∧ c ≠ 0x0D

/-- What `Decode` has put out when it fails: the quanta in front of the one that is corrupt, and a
padded one in front of others. -/
def decodedPrefix : List UInt8 → List UInt8
  | a :: b :: c :: d :: rest =>
    match decodeQuanta [a, b, c, d] with
    | none => []
    | some data => if d = pad then data else data ++ decodedPrefix rest
  | _ => []

/-- What the reads yield: pieces without an error, and then some bytes with one. -/
structure Stream where
  pieces : List (List UInt8)
  last : List UInt8
  fault : Fault
  deriving DecidableEq

/-- Another piece in front. -/
def Stream.cons (data : List UInt8) (s : Stream) : Stream := { s with pieces := data :: s.pieces }

/-- The size of the decoder's buffer. -/
def bufferSize : Nat := 1024

/-- How many characters make whole quanta. -/
def whole (cs : List UInt8) : Nat := cs.length / 4 * 4

/-- `decoder.Read`, again and again, into a buffer that takes what a piece decodes to: what is left
over of the last piece is filled up to a quantum at least, and the whole quanta are decoded. -/
def stream (buf rest : List UInt8) : Stream :=
  if _ : buf.length < 4 then
    if _ : rest = [] then ⟨[], [], if buf = [] then .eof else .unexpectedEOF⟩
    else
      stream (buf ++ unbroken (rest.take (bufferSize - buf.length)))
        (rest.drop (bufferSize - buf.length))
  else
    match decodeQuanta (buf.take (whole buf)) with
    | some data => (stream (buf.drop (whole buf)) rest).cons data
    | none => ⟨[], decodedPrefix (buf.take (whole buf)), .corrupt⟩
  termination_by (rest.length, buf.length)
  decreasing_by
    · have := List.length_pos_iff.2 ‹rest ≠ []›
      exact Prod.Lex.left _ _ (by rw [List.length_drop, bufferSize]; omega)
    · exact Prod.Lex.right _ (by rw [List.length_drop, whole]; omega)

/-- `NewDecoder(StdEncoding, r)`, where `r` has these contents. -/
def newDecoder {E : Type} (fault : Fault → E) (contents : List UInt8) : Copy.Reader E := fun i =>
  let s := stream [] contents
  match s.pieces[i]? with
  | some data => ⟨data, none⟩
  | none => ⟨if i = s.pieces.length then s.last else [], some (fault s.fault)⟩

/-- The decoder comes to the end of the contents: every piece is valid, and nothing is left over. -/
def Accepted (contents : List UInt8) : Prop := (stream [] contents).fault = .eof

instance (contents : List UInt8) : Decidable (Accepted contents) :=
  inferInstanceAs (Decidable (_ = _))

/-! ## What it yields -/

section

variable {E : Type} {fault : Fault → E} {contents data : List UInt8} {a b buf rest : List UInt8}

variable (fault) in
/-- **How the decoder ends.** -/
theorem newDecoder_end (contents : List UInt8) : (newDecoder fault contents).Ends
    ((stream [] contents).pieces.flatten ++ (stream [] contents).last)
    (fault (stream [] contents).fault) := by
  generalize hs : stream [] contents = s
  have hpiece : ∀ i (hi : i < s.pieces.length), newDecoder fault contents i =
      ⟨s.pieces[i], none⟩ := by
    intro i hi
    simp [newDecoder, hs, hi]
  have hlast : newDecoder fault contents s.pieces.length = ⟨s.last, some (fault s.fault)⟩ := by
    simp [newDecoder, hs]
  refine ⟨s.pieces.length, fun i hi => by rw [hpiece i hi], by rw [hlast], ?_⟩
  have hupTo : ∀ n ≤ s.pieces.length,
      (newDecoder fault contents).upTo n = (s.pieces.take n).flatten := by
    intro n hn
    induction n with
    | zero => rfl
    | succ n ih =>
      rw [Copy.Reader.upTo_succ, ih (by omega), hpiece n hn, List.take_succ_eq_append_getElem hn,
        List.flatten_append]
      simp
  rw [Copy.Reader.upTo_succ, hupTo _ le_rfl, hlast, List.take_length]

/-- It comes to an end without another error exactly if it accepts the contents. -/
theorem accepted_iff {e : Fault ↪ E} :
    (∃ data, (newDecoder e contents).Ends data (e .eof)) ↔ Accepted contents := by
  constructor
  · rintro ⟨data, hends⟩
    exact e.injective ((newDecoder_end e contents).err_unique hends)
  · intro h
    have hends := newDecoder_end e contents
    rw [h] at hends
    exact ⟨_, hends⟩

/-- Whole quanta are decoded by themselves. -/
theorem decodeQuanta_append {a b data : List UInt8} (hlen : a.length % 4 = 0)
    (h : decodeQuanta (a ++ b) = some data) : ∃ da db,
      decodeQuanta a = some da ∧ decodeQuanta b = some db ∧ data = da ++ db := by
  match a with
  | [] => exact ⟨[], data, rfl, h, rfl⟩
  | [_] | [_, _] | [_, _, _] => simp at hlen
  | x :: y :: z :: w :: rest =>
    have hrest : rest.length % 4 = 0 := by
      simp only [List.length_cons] at hlen
      omega
    simp only [List.cons_append, decodeQuanta] at h ⊢
    cases hx : decodeChar x with
    | none => simp [hx] at h
    | some x' =>
      cases hy : decodeChar y with
      | none => simp [hx, hy] at h
      | some y' =>
        simp only [hx, hy] at h ⊢
        by_cases hw : w = pad
        · -- padding is at the end
          rw [if_pos hw] at h
          obtain ⟨hnil, h⟩ := Option.ite_none_left_eq_some.1 h
          obtain ⟨rfl, rfl⟩ := List.append_eq_nil_iff.1 (not_not.1 hnil)
          rw [if_pos hw]
          exact ⟨data, [], h, rfl, (List.append_nil _).symm⟩
        · rw [if_neg hw] at h ⊢
          cases hz : decodeChar z with
          | none => simp [hz] at h
          | some z' =>
            cases hw' : decodeChar w with
            | none => simp [hz, hw'] at h
            | some w' =>
              simp only [hz, hw'] at h ⊢
              obtain ⟨tail, htail, rfl⟩ := Option.map_eq_some_iff.1 h
              obtain ⟨da, db, hda, hdb, rfl⟩ := decodeQuanta_append hrest htail
              exact ⟨_, db, by rw [hda]; rfl, hdb, rfl⟩

/-- What is less than a quantum is not decoded. -/
theorem decodeQuanta_short (hlen : a.length < 4) (h : decodeQuanta a = some data) :
    a = [] ∧ data = [] := by
  match a with
  | [] =>
    cases h
    exact ⟨rfl, rfl⟩
  | [_] | [_, _] | [_, _, _] => cases h
  | _ :: _ :: _ :: _ :: _ => simp at hlen; omega

theorem unbroken_append : unbroken (a ++ b) = unbroken a ++ unbroken b := List.filter_append ..

theorem whole_length (cs : List UInt8) : (cs.take (whole cs)).length % 4 = 0 := by
  rw [List.length_take, whole]
  omega

variable (buf rest) in
/-- **What `Decode` takes**, the decoder accepts, and yields the same bytes. -/
theorem stream_of_decode (h : decodeQuanta (buf ++ unbroken rest) = some data) :
    (stream buf rest).fault = .eof ∧ (stream buf rest).last = [] ∧
      (stream buf rest).pieces.flatten = data := by
  induction buf, rest using stream.induct generalizing data with
  | case1 buf hlen =>
    rw [stream, dif_pos hlen, dif_pos rfl]
    rw [unbroken, List.filter_nil, List.append_nil] at h
    obtain ⟨rfl, rfl⟩ := decodeQuanta_short hlen h
    exact ⟨rfl, rfl, rfl⟩
  | case2 buf rest hlen hrest ih =>
    rw [stream, dif_pos hlen, dif_neg hrest]
    refine ih ?_
    rw [List.append_assoc, ← unbroken_append, List.take_append_drop]
    exact h
  | case3 buf rest hlen piece hpiece ih =>
    rw [stream, dif_neg hlen, hpiece]
    rw [← List.take_append_drop (whole buf) buf, List.append_assoc] at h
    obtain ⟨da, db, hda, hdb, rfl⟩ := decodeQuanta_append (whole_length buf) h
    cases hpiece.symm.trans hda
    obtain ⟨hfault, hlast, hpieces⟩ := ih hdb
    exact ⟨hfault, hlast, congrArg (piece ++ ·) hpieces⟩
  | case4 buf rest hlen hpiece =>
    rw [← List.take_append_drop (whole buf) buf, List.append_assoc] at h
    obtain ⟨da, db, hda, -⟩ := decodeQuanta_append (whole_length buf) h
    cases hpiece.symm.trans hda

/-- **Valid contents** are decoded, and then there is EOF. -/
theorem newDecoder_ends (h : decode contents = some data) :
    (newDecoder fault contents).Ends data (fault .eof) := by
  obtain ⟨hfault, hlast, hpieces⟩ := stream_of_decode [] contents h
  have hends := newDecoder_end fault contents
  rwa [hfault, hlast, hpieces, List.append_nil] at hends

/-! ## Padding between pieces -/

theorem unbroken_encode (bs : List UInt8) : unbroken (encode bs) = encode bs := by
  refine List.filter_eq_self.2 fun c hc => ?_
  simpa using (plain_encode bs c hc).not_break

/-- Behind padding, nothing is decoded. -/
theorem decodeQuanta_padded {bs : List UInt8} (hpad : bs.length % 3 ≠ 0) (hne : b ≠ []) :
    decodeQuanta (encode bs ++ b) = none := by
  induction bs using encode.induct with
  | case1 x y z rest ih =>
    have hrest : rest.length % 3 ≠ 0 := by
      simp only [List.length_cons] at hpad
      omega
    simp [encode, decodeQuanta, ih hrest]
  | case2 x y => simp [encode, decodeQuanta, hne]
  | case3 x => simp [encode, decodeQuanta, hne]
  | case4 => simp at hpad

/-- **Padding at the end of a piece is forgotten**: contents that are not valid are decoded to their
end. -/
theorem newDecoder_joined {bs cs : List UInt8} (hlen : (encode bs).length = bufferSize)
    (hpad : bs.length % 3 ≠ 0) (hne : encode cs ≠ []) :
    decode (encode bs ++ encode cs) = none ∧
      (newDecoder fault (encode bs ++ encode cs)).Ends (bs ++ cs) (fault .eof) := by
  have hbs : encode bs ≠ [] := by
    intro hnil
    rw [hnil] at hlen
    cases hlen
  have hcs := stream_of_decode [] (encode cs) (by
    rw [unbroken_encode]
    exact decodeQuanta_encode cs)
  have hstream : stream [] (encode bs ++ encode cs) = (stream [] (encode cs)).cons bs := by
    rw [stream, dif_pos (by simp), dif_neg (by simp [hbs])]
    simp only [List.length_nil, Nat.sub_zero, ← hlen, List.take_left, List.drop_left,
      List.nil_append, unbroken_encode]
    rw [stream, dif_neg (by rw [hlen]; decide)]
    have hwhole : whole (encode bs) = (encode bs).length := by
      rw [whole, hlen]
      decide
    simp only [hwhole, List.take_length, List.drop_length, decodeQuanta_encode]
  refine ⟨?_, ?_⟩
  · have hdecode : decode (encode bs ++ encode cs) =
        decodeQuanta (unbroken (encode bs ++ encode cs)) := rfl
    rw [hdecode, unbroken_append, unbroken_encode, unbroken_encode]
    exact decodeQuanta_padded hpad hne
  · have hends := newDecoder_end fault (encode bs ++ encode cs)
    rw [hstream] at hends
    simpa [Stream.cons, hcs.1, hcs.2.1, hcs.2.2] using hends

end

end UAssign.Base64
