import Lockstep.Decode.Records
import Lockstep.Proofs.Exploration
import Lockstep.Proofs.Layouts

/-!
# Typed values are read back from what is written for them

A value is `Restored` from what was written for it if the decoder of its type, at the depth where the
written form stands, gives the value back. There is one lemma per decoder, and each asks only for what its
parts ask for: room for one more container, a natural of 64 bits, a written form that is not null where
null means that there is nothing.

A record is written member by member and some members are left out; `present` is the list of members that
are not. Whatever is left out, the members are found again by name (`members_present`), so the lemma of a
record is a list of what its members are restored from.
-/

namespace Lockstep

/-- A computation goes on with the result of its first part. -/
theorem bind_of_eq_ok {ε α β : Type} {x : Except ε α} {a : α} (h : x = .ok a) (f : α → Except ε β) :
    x >>= f = f a := by
  rw [h]
  rfl

theorem mapM_eq_ok {ε α β γ : Type} {f : α → β} {read : β → Except ε γ} {g : α → γ} {l : List α}
    (h : ∀ a ∈ l, read (f a) = .ok (g a)) : (l.map f).mapM read = .ok (l.map g) := by
  induction l with
  | nil => rfl
  | cons a l ih =>
    have hrest : (l.map f).mapM read = .ok (l.map g) :=
      ih fun b hb => h b (List.mem_cons_of_mem a hb)
    rw [List.map_cons, List.mapM_cons, bind_of_eq_ok (h a List.mem_cons_self), bind_of_eq_ok hrest]
    rfl

namespace Decode

variable {α : Type} {depth : Nat}

theorem allows_json (h : depth < 127) : Dialect.json.allows depth = true := decide_eq_true h

/-- The written form `v` can be told from its text, and is read inside `depth` containers as `a`. -/
structure Restored (read : Decoder α) (depth : Nat) (v : Json) (a : α) : Prop where
  exact : v.Exact
  eq_ok : read .json depth v.toDoc = .ok a

theorem Restored.decode_pretty {read : Decoder α} {v : Json} {a : α} (h : Restored read 0 v a) :
    Format.json.decode read v.pretty = .ok a := by
  have hread : Format.json.read? v.pretty = some v.toDoc := Json.read?_pretty h.exact
  rw [Format.decode, hread]
  exact h.eq_ok

theorem Restored.decode_compact {read : Decoder α} {v : Json} {a : α} (h : Restored read 0 v a) :
    Format.json.decode read v.compact = .ok a := by
  have hread : Format.json.read? v.compact = some v.toDoc := Json.read?_compact h.exact
  rw [Format.decode, hread]
  exact h.eq_ok

/-! ## Parts -/

theorem restored_text (s : String) : Restored text depth (.str s) s := ⟨.str s, rfl⟩

theorem restored_bool (b : Bool) : Restored bool depth (.bool b) b := ⟨.bool b, rfl⟩

theorem restored_nat {n : Nat} (h : n < Nat.pow 2 64) : Restored nat depth (.nat n) n := by
  refine ⟨.int ⟨?_, Int.ofNat_lt.mpr h⟩, if_pos h⟩
  exact Int.le_trans (Int.neg_nonpos_of_nonneg (Int.natCast_nonneg _)) (Int.natCast_nonneg n)

theorem restored_list {read : Decoder α} {write : α → Json} {l : List α} (hdepth : depth < 127)
    (h : ∀ a ∈ l, Restored read (depth + 1) (write a) a) :
    Restored (list read) depth (.arr (l.map write)) l := by
  constructor
  · refine .arr fun v hv => ?_
    obtain ⟨a, ha, rfl⟩ := List.mem_map.mp hv
    exact (h a ha).exact
  · have hitems : ((l.map write).map Json.toDoc).mapM (read .json (depth + 1)) = .ok l := by
      rw [List.map_map]
      exact (mapM_eq_ok (g := id) fun a ha => (h a ha).eq_ok).trans (by rw [List.map_id])
    rw [Json.toDoc_arr, list, if_pos (allows_json hdepth), hitems]

theorem restored_texts {l : List String} (hdepth : depth < 127) :
    Restored (list text) depth (.texts l) l :=
  restored_list hdepth fun s _ => restored_text s

/-- A value that may be missing, if its written form is never mistaken for nothing. -/
theorem restored_option {read : Decoder α} {write : α → Json} {o : Option α}
    (h : ∀ a, o = some a → Restored read depth (write a) a)
    (hnull : ∀ a, o = some a → (write a).toDoc ≠ .null) :
    Restored (option read) depth (.opt write o) o := by
  cases o with
  | none => exact ⟨.null, rfl⟩
  | some a =>
    refine ⟨(h a rfl).exact, ?_⟩
    rw [Json.opt, option]
    · rw [(h a rfl).eq_ok]
      rfl
    · exact hnull a rfl

theorem restored_optText (o : Option String) : Restored (option text) depth (.optText o) o :=
  restored_option (fun s _ => restored_text s) (fun _ _ => by simp [Json.toDoc])

/-- A map comes back with its keys in order, if the name of every key is read as the key. -/
theorem restored_map {κ : Type} [DecidableEq κ] (label : κ → String) (write : α → Json)
    {key : String → Except DecodeError κ} {read : Decoder α} {m : OrderedMap κ α} (hdepth : depth < 127)
    (hkey : ∀ k, key (label k) = .ok k)
    (h : ∀ e ∈ m.entries, Restored read (depth + 1) (write e.2) e.2) :
    Restored (map key read) depth (.obj (m.entries.map fun e => (label e.1, write e.2))) m := by
  constructor
  · refine .obj fun v hv => ?_
    obtain ⟨e, he, rfl⟩ := List.mem_map.mp hv
    exact (h e he).exact
  · rw [Json.toDoc_obj, map, if_pos (allows_json hdepth), List.map_map]
    -- keys do not repeat, so binding them one after the other gives the entries back
    refine (bind_of_eq_ok (mapM_eq_ok (g := id) fun e he => ?_) _).trans ?_
    · exact (bind_of_eq_ok (hkey e.1) _).trans (bind_of_eq_ok (h e he).eq_ok _)
    · rw [List.map_id]
      exact congrArg Except.ok (OrderedMap.ext (OrderedMap.entries_ofList m.nodup))

theorem ofName?_name (p : Property) : Property.ofName? p.name = some p := by
  cases p <;> decide

theorem propertyKey_name (p : Property) : propertyKey p.name = .ok p := by
  rw [propertyKey, ofName?_name]

theorem restored_property (p : Property) : Restored property depth (.str p.name) p := by
  refine ⟨.str p.name, ?_⟩
  simp only [property, name, Json.toDoc, ofName?_name]

/-! ## Records -/

/-- The members of a record that are written down. -/
def present (fields : List (String × Option Json)) : List (String × Json) :=
  fields.filterMap fun f => f.2.map (f.1, ·)

theorem exact_present {fields : List (String × Option Json)}
    (h : ∀ f ∈ fields, ∀ v, f.2 = some v → v.Exact) : Json.Exact (.obj (present fields)) := by
  refine .obj fun m hm => ?_
  obtain ⟨f, hf, hv⟩ := List.mem_filterMap.mp hm
  obtain ⟨v, hsome, rfl⟩ := Option.map_eq_some_iff.mp hv
  exact h f hf v hsome

/-- Of members with distinct names, the one that is looked for is found, or was left out. -/
theorem filter_present {fields : List (String × Option Json)} (hnames : (fields.map Prod.fst).Nodup)
    {f : String × Option Json} (hf : f ∈ fields) :
    (present fields).filter (fun m => m.1 = f.1) = (f.2.map (f.1, ·)).toList := by
  induction fields with
  | nil => exact absurd hf List.not_mem_nil
  | cons g fields ih =>
    rw [List.map_cons, List.nodup_cons] at hnames
    have hcons : present (g :: fields) = (g.2.map (g.1, ·)).toList ++ present fields := by
      cases hg : g.2 <;> simp [present, hg]
    rw [hcons, List.filter_append]
    rcases List.mem_cons.mp hf with rfl | hf
    · -- the member that is looked for comes first, and none after it has its name
      have hself : (f.2.map (f.1, ·)).toList.filter (fun m => m.1 = f.1) =
          (f.2.map (f.1, ·)).toList := by
        cases hv : f.2 <;> simp
      have hothers : (present fields).filter (fun m => m.1 = f.1) = [] := by
        rw [List.filter_eq_nil_iff]
        intro m hm
        obtain ⟨g, hg, hv⟩ := List.mem_filterMap.mp hm
        obtain ⟨v, -, rfl⟩ := Option.map_eq_some_iff.mp hv
        have hmem : g.1 ∈ fields.map Prod.fst := List.mem_map_of_mem hg
        rw [decide_eq_true_eq]
        exact fun he => hnames.1 (he ▸ hmem)
      rw [hself, hothers, List.append_nil]
    · have hskip : (g.2.map (g.1, ·)).toList.filter (fun m => m.1 = f.1) = [] := by
        have hne : g.1 ≠ f.1 := fun he => hnames.1 (he ▸ List.mem_map_of_mem hf)
        cases hv : g.2 <;> simp [hne]
      rw [hskip, List.nil_append, ih hnames.2 hf]

theorem member?_present {fields : List (String × Option Json)} (hnames : (fields.map Prod.fst).Nodup)
    {f : String × Option Json} (hf : f ∈ fields) :
    member? f.1 ((present fields).map fun m => (some m.1, m.2.toDoc)) = .ok (f.2.map Json.toDoc) := by
  have hfound : ((present fields).map fun m => (some m.1, m.2.toDoc)).filter
      (fun m => m.1 = some f.1) =
        (f.2.map (f.1, ·)).toList.map fun m => (some m.1, m.2.toDoc) := by
    rw [List.filter_map, ← filter_present hnames hf]
    congr 2
    funext m
    simp
  rw [member?, hfound]
  cases f.2 with
  | none => rfl
  | some v => rfl

/-- What a reader finds of the members of a record that was written down. -/
def found (fields : List (String × Option Json)) : Members where
  given := fields.map fun f => f.2.map Json.toDoc
  positional := false

/-- **The members of a record are found again**, whichever of them were left out. -/
theorem members_present {fields : List (String × Option Json)} (hdepth : depth < 127)
    (hnames : (fields.map Prod.fst).Nodup) :
    members (fields.map Prod.fst) .json depth (Json.obj (present fields)).toDoc = .ok (found fields) := by
  have hall : ((present fields).map fun m => (some m.1, m.2.toDoc)).any (fun m => m.1.isNone) = false := by
    simp
  rw [Json.toDoc_obj, members, if_pos (allows_json hdepth), hall, if_neg Bool.false_ne_true]
  have hgiven : (fields.map Prod.fst).mapM
      (fun name => member? name ((present fields).map fun m => (some m.1, m.2.toDoc))) =
        .ok (fields.map fun f => f.2.map Json.toDoc) :=
    mapM_eq_ok fun f hf => member?_present hnames hf
  exact bind_of_eq_ok hgiven _

/--
**A record is restored** if its reader gives it back from the members that were written down.

`rest` is what the reader does with the members once it has them.
-/
theorem restored_record {read : Decoder α} {a : α} {names : List String}
    {fields : List (String × Option Json)} {rest : Members → Except DecodeError α} (hdepth : depth < 127)
    (hread : ∀ d, read .json depth d = members names .json depth d >>= rest)
    (hfields : fields.map Prod.fst = names) (hnames : names.Nodup)
    (hexact : ∀ f ∈ fields, ∀ v, f.2 = some v → v.Exact) (hrest : rest (found fields) = .ok a) :
    Restored read depth (.obj (present fields)) a := by
  subst hfields
  exact ⟨exact_present hexact, by rw [hread, bind_of_eq_ok (members_present hdepth hnames), hrest]⟩

section Found

variable {fields : List (String × Option Json)} {i : Nat} {name label : String} {read : Decoder α} {a : α}

theorem get?_found {o : Option Json} (h : fields[i]? = some (name, o)) :
    (found fields).get? i = o.map Json.toDoc := by
  rw [Members.get?, found, List.getElem?_map, h]
  rfl

theorem required_found {v : Json} (h : fields[i]? = some (name, some v)) (hv : Restored read depth v a) :
    (found fields).required i label (read .json depth) = .ok a := by
  rw [Members.required, get?_found h]
  exact hv.eq_ok

theorem optional_found {read : Decoder (Option α)} {a : Option α} {v : Json}
    (h : fields[i]? = some (name, some v)) (hv : Restored read depth v a) :
    (found fields).optional i label (read .json depth) = .ok a := by
  rw [Members.optional, get?_found h]
  exact hv.eq_ok

/-- A member is left out only if the default is what it holds. -/
theorem withDefault_found {value : α} {o : Option Json} (h : fields[i]? = some (name, o))
    (hnone : o = none → value = a) (hsome : ∀ v, o = some v → Restored read depth v a) :
    (found fields).withDefault i value (read .json depth) = .ok a := by
  rw [Members.withDefault, get?_found h]
  cases o with
  | none => exact congrArg Except.ok (hnone rfl)
  | some v => exact (hsome v rfl).eq_ok

theorem withDefault_given {value : α} {v : Json} (h : fields[i]? = some (name, some v))
    (hv : Restored read depth v a) :
    (found fields).withDefault i value (read .json depth) = .ok a :=
  withDefault_found h (fun hnone => absurd hnone (by simp)) fun _ hw => Option.some.inj hw ▸ hv

theorem withDefault_unless {value : α} {v : Json} {omitted : Bool}
    (h : fields[i]? = some (name, if omitted then none else some v))
    (hvalue : omitted = true → value = a) (hv : Restored read depth v a) :
    (found fields).withDefault i value (read .json depth) = .ok a := by
  cases omitted with
  | false => exact withDefault_given h hv
  | true => exact withDefault_found h (fun _ => hvalue rfl) fun _ hw => absurd hw (by simp)

end Found

end Decode

end Lockstep
