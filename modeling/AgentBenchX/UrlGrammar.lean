import AgentBenchX.GitSources

/-!
# The grammar of repository URLs

`validate_url` matches an SSH URL as it stands, but an https URL through the
parts `urlsplit` makes of it, and returns the URL it was given. `urlsplit`
drops white space and control characters, and of a separator that nothing
follows there is no trace in the parts. So URLs outside of the grammar are
accepted, namely those `urlsplit` makes one of, and the case of the host
matters after all if the list is not in lower case (`validate_url_exact`).
-/

namespace AgentBenchX

open Url

/-! ## The grammar -/

/-- HOST. -/
structure IsHost (host : List Char) : Prop where
  ne_nil : host ≠ []
  chars : ∀ c ∈ host, isHostChar c = true

/-- OWNER and REPO. -/
structure IsName (name : List Char) : Prop where
  ne_nil : name ≠ []
  chars : ∀ c ∈ name, isNameChar c = true

/-- An https URL with HOST, letter by letter. -/
inductive Literal : List Char → List Char → Prop
  | intro {host owner repo : List Char} {port suffix : String} :
      IsHost host → IsName owner → IsName repo → port ∈ ["", ":443"] → suffix ∈ ["", ".git"] →
      Literal host ("https://".toList ++ (host ++ (port.toList
        ++ '/' :: (owner ++ '/' :: (repo ++ suffix.toList)))))

inductive InGrammar (hosts : List String) : List Char → Prop
  | ssh {host owner repo : List Char} :
      IsHost host → IsName owner → IsName repo → String.ofList host ∈ hosts →
      InGrammar hosts ("git@".toList
        ++ (host ++ ':' :: (owner ++ '/' :: (repo ++ ".git".toList))))
  | https {host url : List Char} {name : String} :
      Literal host url → name ∈ hosts → name.toList.map Char.toLower = host.map Char.toLower →
      InGrammar hosts url

/-! ## What the patterns match -/

theorem isPlain_of_isHostChar {c : Char} (h : isHostChar c = true) : isPlain c = true := by
  simp only [isHostChar, isPlain, Bool.or_eq_true, decide_eq_true_eq] at h ⊢
  rcases h with (h | h) | h
  · exact Or.inl (Or.inl (Or.inl h))
  · exact Or.inl (Or.inr h)
  · exact Or.inr h

theorem IsHost.plain {host : List Char} (h : IsHost host) : ∀ c ∈ host, isPlain c = true :=
  fun c hc => isPlain_of_isHostChar (h.chars c hc)

theorem ownerAndName_eq_some {path owner name : List Char} :
    ownerAndName path = some (owner, name)
      ↔ IsName owner ∧ IsName name ∧ path = owner ++ '/' :: name := by
  unfold ownerAndName
  dsimp only
  constructor
  · intro h
    split at h
    · rename_i hparts
      obtain ⟨hslash, howner, howner', hname, hname'⟩ := hparts
      obtain ⟨rfl, rfl⟩ := Prod.mk.inj (Option.some.inj h)
      exact ⟨⟨howner, List.all_eq_true.mp howner'⟩, ⟨hname, List.all_eq_true.mp hname'⟩,
        eq_partition hslash⟩
    · cases h
  · rintro ⟨howner, hname, rfl⟩
    rw [partition_append (notMem_of_isPlain howner.chars (by decide))]
    exact if_pos ⟨by simp, howner.ne_nil, List.all_eq_true.mpr howner.chars, hname.ne_nil,
      List.all_eq_true.mpr hname.chars⟩

theorem isRepositoryPath_iff {path : List Char} : isRepositoryPath path = true
    ↔ ∃ owner repo, IsName owner ∧ IsName repo ∧ path = '/' :: (owner ++ '/' :: repo) := by
  unfold isRepositoryPath
  constructor
  · intro h
    split at h
    · rename_i path
      obtain ⟨⟨owner, repo⟩, hparts⟩ := Option.isSome_iff_exists.mp h
      obtain ⟨howner, hrepo, rfl⟩ := ownerAndName_eq_some.mp hparts
      exact ⟨owner, repo, howner, hrepo, rfl⟩
    · cases h
  · rintro ⟨owner, repo, howner, hrepo, rfl⟩
    show (ownerAndName (owner ++ '/' :: repo)).isSome = true
    rw [ownerAndName_eq_some.mpr ⟨howner, hrepo, rfl⟩]
    rfl

/-- A name with `.git` is a name. -/
theorem IsName.append {repo suffix : List Char} (h : IsName repo)
    (hsuffix : ∀ c ∈ suffix, isNameChar c = true) : IsName (repo ++ suffix) where
  ne_nil := by simp [h.ne_nil]
  chars c hc := (List.mem_append.mp hc).elim (h.chars c) (hsuffix c)

theorem sshMatch_eq_some {url host path : List Char} : sshMatch url = some (host, path)
    ↔ IsHost host ∧ (∃ owner repo, IsName owner ∧ IsName repo
        ∧ path = owner ++ '/' :: (repo ++ ".git".toList))
      ∧ url = "git@".toList ++ (host ++ ':' :: path) := by
  unfold sshMatch
  constructor
  · intro h
    split at h
    · rename_i hgit
      obtain ⟨rest, rfl⟩ := hgit
      rw [List.drop_left' (by decide)] at h
      dsimp only at h
      split at h
      · rename_i hparts
        obtain ⟨hcolon, hhost, hhost', hsuffix⟩ := hparts
        split at h
        · rename_i owner name hname
          split at h
          · rename_i hlength
            obtain ⟨rfl, rfl⟩ := Prod.mk.inj (Option.some.inj h)
            obtain ⟨howner, hname, hpath⟩ := ownerAndName_eq_some.mp hname
            have hname' : name <:+ (partition ':' rest).2 := by
              rw [hpath]
              exact ⟨owner ++ ['/'], by simp⟩
            obtain ⟨repo, rfl⟩ := List.suffix_of_suffix_length_le hsuffix hname' hlength.le
            refine ⟨⟨hhost, List.all_eq_true.mp hhost'⟩, ⟨owner, repo, howner, ⟨?_, fun c hc =>
              hname.chars c (List.mem_append_left _ hc)⟩, hpath⟩, by rw [← eq_partition hcolon]⟩
            rintro rfl
            exact absurd hlength (by decide)
          · cases h
        · cases h
      · cases h
    · cases h
  · rintro ⟨hhost, ⟨owner, repo, howner, hrepo, rfl⟩, rfl⟩
    have hparts : ownerAndName (owner ++ '/' :: (repo ++ ".git".toList))
        = some (owner, repo ++ ".git".toList) :=
      ownerAndName_eq_some.mpr ⟨howner, hrepo.append (forall_of_text (by decide)), rfl⟩
    have hlength : 4 < (repo ++ ".git".toList).length := by
      have hrepo := List.length_pos_iff.mpr hrepo.ne_nil
      rw [List.length_append]
      exact Nat.lt_add_of_pos_left hrepo
    have hsuffix : ".git".toList <:+ owner ++ '/' :: (repo ++ ".git".toList) :=
      ⟨owner ++ '/' :: repo, by simp⟩
    rw [if_pos (List.prefix_append _ _), List.drop_left' (by decide),
      partition_append (notMem_of_isPlain hhost.plain (by decide))]
    dsimp only
    rw [if_pos ⟨by simp, hhost.ne_nil, List.all_eq_true.mpr hhost.chars, hsuffix⟩, hparts]
    exact if_pos hlength

/-! ## What is accepted -/

/-- The parts `validate_url` asks for. -/
structure Acceptable (T : UrlTables) (hosts : List String) (parsed : SplitUrl) : Prop where
  scheme : parsed.scheme = "https".toList
  username : parsed.username = []
  password : parsed.password = []
  query : parsed.query = []
  fragment : parsed.fragment = []
  port : parsed.port = some none ∨ parsed.port = some (some 443)
  path : isRepositoryPath parsed.path = true
  host : ∃ name, parsed.hostname T = some name ∧ String.ofList name ∈ hosts

section Validation

variable {py : Python} {settings : GitSettings} {url : String}

theorem checkHost_ok {host : Option (List Char)} :
    GitRepositoryManager.checkHost settings host url = .ok url
      ↔ ∃ name, host = some name ∧ String.ofList name ∈ settings.allowedHosts := by
  unfold GitRepositoryManager.checkHost
  cases host with
  | none => exact ⟨nofun, fun ⟨_, h, _⟩ => nomatch h⟩
  | some name =>
      dsimp only
      split
      · rename_i hmem
        exact ⟨fun _ => ⟨name, rfl, hmem⟩, fun _ => rfl⟩
      · rename_i hmem
        refine ⟨nofun, ?_⟩
        rintro ⟨name', hname, hmem'⟩
        obtain rfl := Option.some.inj hname
        exact absurd hmem' hmem

theorem validateUrl_eq_ok : GitRepositoryManager.validateUrl py settings url = .ok url
    ↔ (∃ host path, sshMatch url.toList = some (host, path)
        ∧ String.ofList host ∈ settings.allowedHosts)
      ∨ sshMatch url.toList = none ∧ ∃ parsed, urlsplit py.tables url.toList = some parsed
        ∧ Acceptable py.tables settings.allowedHosts parsed := by
  unfold GitRepositoryManager.validateUrl
  cases hssh : sshMatch url.toList with
  | some groups =>
      obtain ⟨host, path⟩ := groups
      dsimp only
      rw [checkHost_ok]
      constructor
      · rintro ⟨name, hname, hmem⟩
        obtain rfl := Option.some.inj hname
        exact Or.inl ⟨_, _, rfl, hmem⟩
      · rintro (⟨host', path', hgroups, hmem⟩ | ⟨hnone, -⟩)
        · obtain ⟨rfl, rfl⟩ := Prod.mk.inj (Option.some.inj hgroups)
          exact ⟨_, rfl, hmem⟩
        · cases hnone
  | none =>
      dsimp only
      refine Iff.trans ?_ (or_iff_right (fun ⟨_, _, hsome, _⟩ => nomatch hsome)).symm
      rw [eq_self_iff_true, true_and]
      cases hsplit : urlsplit py.tables url.toList with
      | none => exact ⟨nofun, fun ⟨_, hsome, _⟩ => nomatch hsome⟩
      | some parsed =>
          simp only [Option.some.injEq, exists_eq_left']
          cases hport : parsed.port with
          | none =>
              refine ⟨nofun, fun h => ?_⟩
              rcases h.port with h | h <;> rw [hport] at h <;> cases h
          | some port =>
              dsimp only
              split
              · rename_i hbad
                refine ⟨nofun, fun h => ?_⟩
                have hport' : port = none ∨ port = some 443 :=
                  h.port.imp (fun h => Option.some.inj (hport.symm.trans h))
                    fun h => Option.some.inj (hport.symm.trans h)
                rcases hbad with hbad | hbad | hbad | hbad | hbad | hbad | hbad
                · exact absurd h.scheme hbad
                · exact absurd h.username hbad
                · exact absurd h.password hbad
                · exact absurd h.query hbad
                · exact absurd h.fragment hbad
                · exact absurd hport' hbad
                · exact absurd h.path hbad
              · rename_i hgood
                rw [not_or, not_or, not_or, not_or, not_or, not_or] at hgood
                simp only [ne_eq, not_not] at hgood
                obtain ⟨hscheme, husername, hpassword, hquery, hfragment, hport', hpath⟩ := hgood
                rw [checkHost_ok]
                refine ⟨fun hhost => ⟨hscheme, husername, hpassword, hquery, hfragment, ?_, hpath,
                  hhost⟩, fun h => h.host⟩
                rw [hport]
                exact hport'.imp (congrArg some) (congrArg some)

end Validation

/-! ## URLs as they are written -/

section Written

variable {T : UrlTables} {hosts : List String} {host owner repo : List Char} {port suffix : String}

/-- The attributes of a plain network location. -/
theorem hostinfo_literal {u : SplitUrl} (hhost : IsHost host) (hport : port ∈ ["", ":443"])
    (hnetloc : u.netloc = host ++ port.toList)
    (hplain : ∀ c ∈ u.netloc, isPlainOrColon c = true) :
    u.username = [] ∧ u.password = [] ∧ u.hostinfo = (host, port.toList.drop 1) := by
  have hat := rpartition_of_notMem (notMem_of_isPlainOrColon hplain (c := '@') (by decide))
  have hcolon : ':' ∉ host := notMem_of_isPlain hhost.plain (by decide)
  refine ⟨by rw [SplitUrl.username, hat]; rfl, by rw [SplitUrl.password, hat]; rfl, ?_⟩
  rw [SplitUrl.hostinfo, hat]
  dsimp only
  rw [if_neg (notMem_of_isPlainOrColon hplain (by decide)), hnetloc]
  rcases List.mem_pair.mp hport with rfl | rfl
  · rw [show "".toList = [] from rfl, List.append_nil, partition_of_notMem hcolon]
    rfl
  · exact partition_append hcolon

theorem hostname_literal {u : SplitUrl} (hhost : IsHost host) {digits : List Char}
    (hinfo : u.hostinfo = (host, digits)) : u.hostname T = some (host.map Char.toLower) := by
  have hall : ∀ c ∈ host, decide (c ≠ '%') = true := fun c hc =>
    decide_eq_true fun heq => notMem_of_isPlain hhost.plain (c := '%') (by decide) (heq ▸ hc)
  rw [SplitUrl.hostname, hinfo]
  dsimp only
  rw [if_neg hhost.ne_nil, List.takeWhile_eq_self_iff.mpr hall, List.dropWhile_eq_nil_iff.mpr hall,
    List.append_nil, T.lower_ascii _ fun c hc => (toNat_of_isPlain (hhost.plain c hc)).2]

/-- A literal URL has the parts asked for, if its host is listed in lower case. -/
theorem Literal.parts (T : UrlTables) {url : List Char} (h : Literal host url) :
    ∃ parsed, urlsplit T url = some parsed
      ∧ ∀ hosts, Acceptable T hosts parsed ↔ String.ofList (host.map Char.toLower) ∈ hosts := by
  obtain @⟨owner, repo, port, suffix, hhost, howner, hrepo, hport, hsuffix⟩ := h
  have hportChars : ∀ port ∈ ["", ":443"], ∀ c ∈ port.toList, isPlainOrColon c = true := by
    intro port hport
    rcases List.mem_pair.mp hport with rfl | rfl <;> exact forall_of_text (by decide)
  have hsuffixChars : ∀ c ∈ suffix.toList, isNameChar c = true := by
    rcases List.mem_pair.mp hsuffix with rfl | rfl <;> exact forall_of_text (by decide)
  have hname := hrepo.append hsuffixChars
  have hnetloc : ∀ c ∈ host ++ port.toList, isPlainOrColon c = true := fun c hc =>
    (List.mem_append.mp hc).elim (fun hc => Bool.or_eq_true .. |>.mpr (Or.inl (hhost.plain c hc)))
      (hportChars port hport c)
  have hpath : ∀ c ∈ owner ++ '/' :: (repo ++ suffix.toList), isPlainOrSlash c = true := by
    intro c hc
    rcases List.mem_append.mp hc with hc | hc
    · exact Bool.or_eq_true .. |>.mpr (Or.inl (howner.chars c hc))
    · rcases List.mem_cons.mp hc with rfl | hc
      · decide
      · exact Bool.or_eq_true .. |>.mpr (Or.inl (hname.chars c hc))
  refine ⟨_, by rw [← List.append_assoc host, urlsplit_plain T hnetloc hpath], fun hosts => ?_⟩
  obtain ⟨husername, hpassword, hinfo⟩ := hostinfo_literal (u := ⟨"https".toList,
    host ++ port.toList, '/' :: (owner ++ '/' :: (repo ++ suffix.toList)), [], []⟩) hhost hport rfl
    hnetloc
  have hhostname := hostname_literal (T := T) hhost hinfo
  constructor
  · intro h
    obtain ⟨name, hname, hmem⟩ := h.host
    rw [hhostname] at hname
    rw [Option.some.inj hname]
    exact hmem
  · intro hmem
    refine ⟨rfl, husername, hpassword, rfl, rfl, ?_,
      isRepositoryPath_iff.mpr ⟨owner, _, howner, hname, rfl⟩, _, hhostname, hmem⟩
    rw [SplitUrl.port, hinfo]
    rcases List.mem_pair.mp hport with rfl | rfl
    · exact Or.inl rfl
    · exact Or.inr rfl

theorem Literal.not_git {url rest : List Char} (h : Literal host url)
    (hurl : url = "git@".toList ++ rest) : False := by
  obtain ⟨-, -, -, -, -⟩ := h
  exact absurd (List.cons.inj hurl).1 (by decide)

theorem Literal.sshMatch {url : List Char} (h : Literal host url) : sshMatch url = none := by
  rcases hssh : AgentBenchX.sshMatch url with _ | ⟨host', path⟩
  · rfl
  · exact (h.not_git (sshMatch_eq_some.mp hssh).2.2).elim

/-- A character of a URL of the grammar. -/
def isUrlChar (c : Char) : Bool := isPlain c || c = ':' || c = '/' || c = '@'

theorem isUrlChar_of_isPlain {c : Char} (h : isPlain c = true) : isUrlChar c = true := by
  simp only [isUrlChar, h, Bool.true_or]

/-- No white space, no control character, no query and no fragment. -/
theorem graphic_of_isUrlChar {c : Char} (h : isUrlChar c = true) :
    32 < c.toNat ∧ c.toNat < 127 ∧ c ≠ '?' ∧ c ≠ '#' := by
  have hall : ∀ n < 128, isUrlChar (Char.ofNat n) = true → 32 < (Char.ofNat n).toNat
      ∧ (Char.ofNat n).toNat < 127 ∧ Char.ofNat n ≠ '?' ∧ Char.ofNat n ≠ '#' := by
    decide +kernel
  have hascii : c.toNat < 128 := by
    simp only [isUrlChar, Bool.or_eq_true, decide_eq_true_eq] at h
    rcases h with ((h | rfl) | rfl) | rfl
    · exact (toNat_of_isPlain h).2
    all_goals decide
  have hc := hall c.toNat hascii
  rw [Char.ofNat_toNat] at hc
  exact hc h

theorem InGrammar.isUrlChar {url : List Char} (h : InGrammar hosts url) :
    ∀ c ∈ url, isUrlChar c = true := by
  have hplain : ∀ {name : List Char}, IsName name → ∀ c ∈ name, AgentBenchX.isUrlChar c = true :=
    fun hname c hc => isUrlChar_of_isPlain (hname.chars c hc)
  have hhosts : ∀ {host : List Char}, IsHost host → ∀ c ∈ host, AgentBenchX.isUrlChar c = true :=
    fun hhost c hc => isUrlChar_of_isPlain (hhost.plain c hc)
  rcases h with ⟨hhost, howner, hrepo, -⟩ | ⟨⟨hhost, howner, hrepo, hport, hsuffix⟩, -, -⟩
  · simp only [List.forall_mem_append, List.forall_mem_cons]
    exact ⟨forall_of_text (by decide), hhosts hhost, by decide, hplain howner, by decide,
      hplain hrepo, forall_of_text (by decide)⟩
  · simp only [List.forall_mem_append, List.forall_mem_cons]
    refine ⟨forall_of_text (by decide), hhosts hhost, ?_, by decide, hplain howner, by decide,
      hplain hrepo, ?_⟩
    · rcases List.mem_pair.mp hport with rfl | rfl <;> exact forall_of_text (by decide)
    · rcases List.mem_pair.mp hsuffix with rfl | rfl <;> exact forall_of_text (by decide)

/-- A URL of the grammar is one printable word without query and fragment. -/
theorem InGrammar.graphic {url : List Char} (h : InGrammar hosts url) :
    ∀ c ∈ url, 32 < c.toNat ∧ c.toNat < 127 ∧ c ≠ '?' ∧ c ≠ '#' :=
  fun c hc => graphic_of_isUrlChar (h.isUrlChar c hc)

end Written

end AgentBenchX
