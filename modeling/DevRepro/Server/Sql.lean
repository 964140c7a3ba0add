import DevRepro.Lib.Machine
import DevRepro.Lib.Table
import DevRepro.Python.JsonRoundTrip
import DevRepro.Python.Time

/-!
# Parameters of a statement

What `sqlite3` does with the parameters of a statement before it runs it: a text
is encoded as UTF-8, and an integer has to fit in 64 bits.
-/

namespace DevRepro.Server

open DevRepro.Python

/-- A text that has a UTF-8 encoding. -/
def Encodable (s : Str) : Prop := ∀ c ∈ s, isSurrogate c = false

instance (s : Str) : Decidable (Encodable s) :=
  List.decidableBAll (fun c => isSurrogate c = false) s

/-- A number that fits in a column. -/
def InInt64 (n : Int) : Prop := -9223372036854775808 ≤ n ∧ n ≤ 9223372036854775807

instance (n : Int) : Decidable (InInt64 n) :=
  inferInstanceAs (Decidable (-9223372036854775808 ≤ n ∧ n ≤ 9223372036854775807))

/-- A text as a parameter. -/
def bindText (s : Str) : Except Exc Unit :=
  if Encodable s then .ok () else .error ⟨.unicodeEncodeError, "surrogates not allowed"⟩

/-- A number as a parameter. -/
def bindInt (n : Int) : Except Exc Unit :=
  if InInt64 n then .ok ()
  else .error ⟨.overflowError, "Python int too large to convert to SQLite INTEGER"⟩

theorem bindText_eq_ok {s : Str} : bindText s = .ok () ↔ Encodable s := by
  rw [bindText]
  split_ifs with h <;> simp [h]

theorem bindInt_eq_ok {n : Int} : bindInt n = .ok () ↔ InInt64 n := by
  rw [bindInt]
  split_ifs with h <;> simp [h]

theorem bindText_error {s : Str} (h : ¬Encodable s) : ∃ exc, bindText s = .error exc :=
  ⟨_, if_neg h⟩

theorem bindInt_error {n : Int} (h : ¬InInt64 n) : ∃ exc, bindInt n = .error exc :=
  ⟨_, if_neg h⟩

theorem bindText_then {α : Type} {s : Str} {rest : Unit → Except Exc α} {r : α} :
    (bindText s >>= rest) = .ok r ↔ Encodable s ∧ rest () = .ok r := by
  rw [bind_eq_ok]
  exact ⟨fun ⟨_, hbind, hrest⟩ => ⟨bindText_eq_ok.mp hbind, hrest⟩,
    fun ⟨hs, hrest⟩ => ⟨(), bindText_eq_ok.mpr hs, hrest⟩⟩

theorem bindInt_then {α : Type} {n : Int} {rest : Unit → Except Exc α} {r : α} :
    (bindInt n >>= rest) = .ok r ↔ InInt64 n ∧ rest () = .ok r := by
  rw [bind_eq_ok]
  exact ⟨fun ⟨_, hbind, hrest⟩ => ⟨bindInt_eq_ok.mp hbind, hrest⟩,
    fun ⟨hn, hrest⟩ => ⟨(), bindInt_eq_ok.mpr hn, hrest⟩⟩

theorem bindText_pass {α : Type} {s : Str} (h : Encodable s) (rest : Unit → Except Exc α) :
    (bindText s >>= rest) = rest () := by
  rw [bindText_eq_ok.mpr h]
  rfl

theorem bindInt_pass {α : Type} {n : Int} (h : InInt64 n) (rest : Unit → Except Exc α) :
    (bindInt n >>= rest) = rest () := by
  rw [bindInt_eq_ok.mpr h]
  rfl

/-- A block that a violated condition ends. -/
theorem refused_unless {α : Type} {p : Prop} [Decidable p] {exc : Exc} {a r : α} :
    (if p then .error exc else pure a : Except Exc α) = .ok r ↔ ¬p ∧ a = r := by
  split_ifs with h
  · simp [h]
  · rw [pure_eq_ok]
    simp [h]

/-- A violated uniqueness constraint. -/
def integrityError (columns : Str) : Exc :=
  ⟨.integrityError, lit "UNIQUE constraint failed: " ++ columns⟩

theorem encodable_append {s t : Str} (hs : Encodable s) (ht : Encodable t) : Encodable (s ++ t) := by
  intro c hc
  rcases List.mem_append.mp hc with h | h
  · exact hs c h
  · exact ht c h

theorem encodable_natStr (n : Nat) : Encodable (natStr n) :=
  fun c hc => isSurrogate_of_isPrintableAscii (natStr_printable n c hc)

/-! ## Transactions -/

/-- `with self.tx()`: what is stored behind a block, and what the block gives.  A
block that raises leaves what was stored before it. -/
def tx {σ α : Type} (before : σ) (block : Except Exc (σ × α)) : σ × Except Exc α :=
  match block with
  | .error exc => (before, .error exc)
  | .ok (after, value) => (after, .ok value)

theorem tx_eq_ok {σ α : Type} {before : σ} {block : Except Exc (σ × α)} {value : α} :
    (tx before block).2 = .ok value ↔ ∃ after, block = .ok (after, value) := by
  cases block with
  | error exc => simp [tx]
  | ok result => simp [tx, Prod.ext_iff]

end DevRepro.Server
