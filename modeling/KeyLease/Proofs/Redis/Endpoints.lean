import Mathlib.Data.List.TakeWhile
import KeyLease.Redis.Store
import KeyLease.Proofs.Config.Scheme

set_option autoImplicit false

/-!
# Endpoints

What a store shows of its URI, held against what its client reads there. The client looks for the
end of the user information in the authority alone, which a slash, a question mark or a number sign
ends. The endpoint is what follows the last `@` of the whole URI. `withoutUserInfo` is the text that
the client would call the URI without its user information.

`Store.endpoint_iff`: of every store that is built, the endpoint is that text for all the URIs that
have no `@` behind the authority, and for no others; where it is, the client reads there the address
of the store without user and password. What is shown is never more than the scheme and an end of
that text. `Store.endpoint_names_other_host`: an `@` in a query makes the endpoint name another host.
-/

namespace KeyLease

namespace Text

/-! ## Cuts at the last separator -/

/-- There is no cut where there is no separator. -/
theorem splitLast_eq_none {sep : Char} {cs : List Char} (h : sep ∉ cs) : splitLast sep cs = none := by
  cases hcut : splitLast sep cs with
  | none => rfl
  | some cut =>
      obtain ⟨before, after⟩ := cut
      exact absurd (by simp [(eq_append_of_splitLast hcut).1]) h

/-- No cut, no separator. -/
theorem not_mem_of_splitLast_eq_none {sep : Char} {cs : List Char} (h : splitLast sep cs = none) :
    sep ∉ cs := by
  intro hmem
  obtain ⟨before, after, rfl⟩ := List.append_of_mem hmem
  exact splitLast_append_ne_none sep before after h

/-- A text that ends in one without separators is cut where its first part is. -/
theorem splitLast_append_of_not_mem {sep : Char} (front : List Char) {back : List Char}
    (h : sep ∉ back) :
    splitLast sep (front ++ back)
      = (splitLast sep front).map fun (before, after) => (before, after ++ back) := by
  induction front with
  | nil => simp [splitLast_eq_none h, splitLast]
  | cons c front ih =>
      simp only [List.cons_append, splitLast, ih]
      cases splitLast sep front with
      | some cut => rfl
      | none =>
          by_cases hc : c = sep
          · simp [hc]
          · simp [hc]

/-- A text is cut where its second part is, if that part can be cut. -/
theorem splitLast_append_of_splitLast {sep : Char} (front : List Char)
    {back before after : List Char} (h : splitLast sep back = some (before, after)) :
    splitLast sep (front ++ back) = some (front ++ before, after) := by
  induction front with
  | nil => exact h
  | cons c front ih => simp only [List.cons_append, splitLast, ih]

/-- A text is cut at a separator with none behind it. -/
theorem splitLast_append_cons {sep : Char} (before : List Char) {after : List Char}
    (h : sep ∉ after) : splitLast sep (before ++ sep :: after) = some (before, after) := by
  have hhere : splitLast sep (sep :: after) = some ([], after) := by
    simp [splitLast, splitLast_eq_none h]
  simpa using splitLast_append_of_splitLast before hhere

end Text

namespace Redis

/-! ## A URI without its user information -/

/-- What the authority of a text behind a scheme leaves of it. -/
def behindAuthority (cs : List Char) : List Char := cs.dropWhile (! endsAuthority ·)

/-- The text behind a scheme without the user information of its authority and the `@` that ends
that. -/
def withoutUserInfo (cs : List Char) : List Char :=
  let authority := cs.takeWhile (! endsAuthority ·)
  ((Text.splitLast '@' authority).map Prod.snd).getD authority ++ behindAuthority cs

/-- The authority of a text that begins like one. -/
theorem takeWhile_authority {front : List Char} (hfront : ∀ c ∈ front, endsAuthority c = false)
    (back : List Char) :
    (front ++ back).takeWhile (! endsAuthority ·)
      = front ++ back.takeWhile (! endsAuthority ·) :=
  List.takeWhile_append_of_pos fun c hc => by simp [hfront c hc]

/-- What the authority leaves of a text that begins like one. -/
theorem behindAuthority_append {front : List Char} (hfront : ∀ c ∈ front, endsAuthority c = false)
    (back : List Char) : behindAuthority (front ++ back) = behindAuthority back :=
  List.dropWhile_append_of_pos fun c hc => by simp [hfront c hc]

/-- No character of an authority ends it. -/
theorem endsAuthority_of_mem_takeWhile (cs : List Char) :
    ∀ c ∈ cs.takeWhile (! endsAuthority ·), endsAuthority c = false := by
  intro c hc
  simpa using List.mem_takeWhile_imp hc

/-- A text is its authority and what that leaves. -/
theorem authority_append (cs : List Char) :
    cs.takeWhile (! endsAuthority ·) ++ behindAuthority cs = cs :=
  List.takeWhile_append_dropWhile

/-- The authority leaves nothing, or what is left begins with the character that ends it. -/
theorem behindAuthority_cases (cs : List Char) :
    behindAuthority cs = [] ∨ ∃ e rest, behindAuthority cs = e :: rest ∧ endsAuthority e = true := by
  cases h : behindAuthority cs with
  | nil => exact .inl rfl
  | cons e rest =>
      have hhead := List.head?_dropWhile_not (! endsAuthority ·) cs
      rw [show cs.dropWhile (! endsAuthority ·) = e :: rest from h] at hhead
      exact .inr ⟨e, rest, rfl, by simpa using hhead⟩

/-- Without an `@` in the authority there is no user information. -/
theorem withoutUserInfo_eq_self {cs : List Char} (h : '@' ∉ cs.takeWhile (! endsAuthority ·)) :
    withoutUserInfo cs = cs := by
  rw [withoutUserInfo, Text.splitLast_eq_none h]
  exact authority_append cs

/-- User information goes, and what is before the last `@` of the authority is user information. -/
theorem withoutUserInfo_append {info : List Char} (hinfo : ∀ c ∈ info, endsAuthority c = false)
    (cs : List Char) : withoutUserInfo (info ++ '@' :: cs) = withoutUserInfo cs := by
  have hfront : ∀ c ∈ info ++ ['@'], endsAuthority c = false := by
    intro c hc
    obtain hc | rfl := by simpa using hc
    · exact hinfo c hc
    · decide
  have happ : info ++ '@' :: cs = (info ++ ['@']) ++ cs := by simp
  rw [happ, withoutUserInfo, withoutUserInfo, behindAuthority_append hfront,
    takeWhile_authority hfront]
  cases hcut : Text.splitLast '@' (cs.takeWhile (! endsAuthority ·)) with
  | none =>
      rw [List.append_assoc, List.singleton_append,
        Text.splitLast_append_cons info (Text.not_mem_of_splitLast_eq_none hcut)]
      rfl
  | some cut => rw [Text.splitLast_append_of_splitLast _ hcut]; rfl

/-- A text splits into user information and the rest at the last `@` of its authority. -/
theorem userInfo_cases (cs : List Char) :
    ('@' ∉ cs.takeWhile (! endsAuthority ·) ∧ withoutUserInfo cs = cs) ∨
    ∃ info, cs = info ++ '@' :: withoutUserInfo cs
      ∧ (∀ c ∈ info, endsAuthority c = false)
      ∧ '@' ∉ (withoutUserInfo cs).takeWhile (! endsAuthority ·) := by
  cases hcut : Text.splitLast '@' (cs.takeWhile (! endsAuthority ·)) with
  | none =>
      have hnone := Text.not_mem_of_splitLast_eq_none hcut
      exact .inl ⟨hnone, withoutUserInfo_eq_self hnone⟩
  | some cut =>
      obtain ⟨info, hostPort⟩ := cut
      obtain ⟨hauthority, hnot⟩ := Text.eq_append_of_splitLast hcut
      have hends := endsAuthority_of_mem_takeWhile cs
      rw [hauthority] at hends
      have hleft : withoutUserInfo cs = hostPort ++ behindAuthority cs := by
        simp [withoutUserInfo, hcut]
      refine .inr ⟨info, ?_, fun c hc => hends c (by simp [hc]), ?_⟩
      · calc cs = cs.takeWhile (! endsAuthority ·) ++ behindAuthority cs := (authority_append cs).symm
          _ = info ++ '@' :: withoutUserInfo cs := by rw [hauthority, hleft]; simp
      · rw [hleft, takeWhile_authority fun c hc => hends c (by simp [hc])]
        have hnothing : (behindAuthority cs).takeWhile (! endsAuthority ·) = [] := by
          obtain hnil | ⟨e, rest, hcons, he⟩ := behindAuthority_cases cs
          · simp [hnil]
          · simp [hcons, he]
        simpa [hnothing] using hnot

/-! ## What is significant of a URI -/

/-- A character that a reader keeps wherever it stands: no tab and no line break. -/
def isKept (c : Char) : Bool := ¬ (c = '\t' ∨ c = '\n' ∨ c = '\r')

/-- What a reader keeps of a text whose beginning it has passed: all but blanks and control
characters at the end and tabs and line breaks anywhere. -/
def significantEnd (cs : List Char) : List Char :=
  (cs.reverse.dropWhile isSpaceOrControl).reverse.filter isKept

/-- What is kept is part of the text. -/
theorem mem_of_mem_significantEnd {c : Char} {cs : List Char} (h : c ∈ significantEnd cs) :
    c ∈ cs := by
  have hkept : c ∈ cs.reverse.dropWhile isSpaceOrControl :=
    List.mem_reverse.mp (List.mem_filter.mp h).1
  exact List.mem_reverse.mp ((List.dropWhile_sublist _).subset hkept)

/-- Before a visible character only tabs and line breaks are dropped. -/
theorem significantEnd_append (front : List Char) {x : Char} (hx : isSpaceOrControl x = false)
    (back : List Char) :
    significantEnd (front ++ x :: back)
      = front.filter isKept ++ x :: significantEnd back := by
  have hdrop : (front ++ x :: back).reverse.dropWhile isSpaceOrControl
      = back.reverse.dropWhile isSpaceOrControl ++ x :: front.reverse := by
    rw [List.reverse_append, List.reverse_cons, List.append_assoc, List.dropWhile_append]
    cases hrest : back.reverse.dropWhile isSpaceOrControl with
    | nil => simp [hx]
    | cons _ _ => simp
  have hkeep : isKept x = true := by
    have hlow : x ≠ '\t' ∧ x ≠ '\n' ∧ x ≠ '\r' := by
      refine ⟨?_, ?_, ?_⟩ <;> rintro rfl <;> exact absurd hx (by decide)
    simpa [isKept, not_or] using hlow
  rw [significantEnd, hdrop]
  simp [significantEnd, hkeep]

/-- A character that ends the authority is visible. -/
theorem isSpaceOrControl_of_endsAuthority {c : Char} (h : endsAuthority c = true) :
    isSpaceOrControl c = false := by
  have hc : c = '/' ∨ c = '?' ∨ c = '#' := by simpa [endsAuthority, or_assoc] using h
  obtain rfl | rfl | rfl := hc <;> decide

/-- The schemes of Redis addresses. -/
def IsRedisScheme (scheme : List Char) : Prop :=
  scheme = "redis".toList ∨ scheme = "rediss".toList

/-- A URI is read from its scheme on. -/
theorem significant_append {scheme : List Char} (hscheme : IsRedisScheme scheme)
    (rest : List Char) :
    significant (scheme ++ schemeMark ++ rest) = scheme ++ schemeMark ++ significantEnd rest := by
  have hfront (front : List Char) (hhead : ∃ c cs, front = c :: cs ∧ isSpaceOrControl c = false)
      (hkept : front.filter isKept = front) :
      significant (front ++ '/' :: rest) = front ++ '/' :: significantEnd rest := by
    obtain ⟨c, cs, rfl, hc⟩ := hhead
    have hbegin : ((c :: cs) ++ '/' :: rest).dropWhile isSpaceOrControl = (c :: cs) ++ '/' :: rest := by
      simp [hc]
    calc significant ((c :: cs) ++ '/' :: rest)
        = significantEnd ((c :: cs) ++ '/' :: rest) := by
          rw [significant, hbegin]; rfl
      _ = (c :: cs) ++ '/' :: significantEnd rest := by
          rw [significantEnd_append (c :: cs) (by decide), hkept]
  obtain rfl | rfl := hscheme
  · exact hfront "redis:/".toList ⟨_, _, rfl, by decide⟩ (by decide)
  · exact hfront "rediss:/".toList ⟨_, _, rfl, by decide⟩ (by decide)

/-- Without an `@` in the authority of a text there is none in what the reader keeps of it. -/
theorem not_mem_authority_significantEnd {cs : List Char}
    (h : '@' ∉ cs.takeWhile (! endsAuthority ·)) :
    '@' ∉ (significantEnd cs).takeWhile (! endsAuthority ·) := by
  obtain hnil | ⟨e, rest, hcons, he⟩ := behindAuthority_cases cs
  · have hall : cs.takeWhile (! endsAuthority ·) = cs := by
      simpa [hnil] using authority_append cs
    rw [hall] at h
    exact fun hmem => h (mem_of_mem_significantEnd ((List.takeWhile_sublist _).subset hmem))
  · have hkept : ∀ c ∈ (cs.takeWhile (! endsAuthority ·)).filter
        isKept, endsAuthority c = false :=
      fun c hc => endsAuthority_of_mem_takeWhile cs c (List.mem_filter.mp hc).1
    rw [← authority_append cs, hcons,
      significantEnd_append _ (isSpaceOrControl_of_endsAuthority he), takeWhile_authority hkept]
    have hends : (e :: significantEnd rest).takeWhile (! endsAuthority ·) = [] := by simp [he]
    rw [hends, List.append_nil]
    exact fun hmem => h (List.mem_filter.mp hmem).1

/-- The user information is the same whether it is looked for before or after the reader has dropped
what is not significant. -/
theorem withoutUserInfo_significantEnd (cs : List Char) :
    withoutUserInfo (significantEnd cs) = significantEnd (withoutUserInfo cs) := by
  have hnone {cs : List Char} (h : '@' ∉ cs.takeWhile (! endsAuthority ·)) :
      withoutUserInfo (significantEnd cs) = significantEnd cs :=
    withoutUserInfo_eq_self (not_mem_authority_significantEnd h)
  obtain ⟨hnot, hself⟩ | ⟨info, hcs, hinfo, hnot⟩ := userInfo_cases cs
  · rw [hself, hnone hnot]
  · have hkept : ∀ c ∈ info.filter isKept,
        endsAuthority c = false := fun c hc => hinfo c (List.mem_filter.mp hc).1
    calc withoutUserInfo (significantEnd cs)
        = withoutUserInfo (info.filter isKept ++ '@' :: significantEnd (withoutUserInfo cs)) := by
          rw [← significantEnd_append info (by decide), ← hcs]
      _ = withoutUserInfo (significantEnd (withoutUserInfo cs)) := withoutUserInfo_append hkept _
      _ = significantEnd (withoutUserInfo cs) := hnone hnot

/-! ## Reading without user information -/

/-- What it takes for the text behind a scheme to be read as parts, by the cut of its authority into
user information and the rest. -/
theorem Parts.read_eq_ok_iff {cs userInfo hostPort : List Char} {p : Parts}
    (hcut : (Text.splitLast '@' (cs.takeWhile (! endsAuthority ·))).getD
      ([], cs.takeWhile (! endsAuthority ·)) = (userInfo, hostPort)) :
    Parts.read cs = .ok p ↔
      ¬ (userInfo = [] ∧ hostPort = [] ∧ ¬ cs.takeWhile (! endsAuthority ·) = []
          ∧ ¬ behindAuthority cs = []) ∧
      ∃ host port, readHost (splitHost false hostPort).1 = .ok (some host) ∧
        readPort (((splitHost false hostPort).2.drop 1).takeWhile (· ≠ '\\')) = .ok port ∧
        p = {
          user := (splitCredentials userInfo).1
          password := (splitCredentials userInfo).2
          host, port
          path := ((splitHost false hostPort).2.drop 1).dropWhile (· ≠ '\\')
            ++ (behindAuthority cs).takeWhile fun c => ¬ (c = '?' ∨ c = '#') } := by
  simp only [Parts.read, hcut, List.isEmpty_iff, behindAuthority, bind, Except.bind, pure,
    Except.pure, throw, throwThe, MonadExceptOf.throw]
  split
  · rename_i hbare
    simp [hbare]
  · rename_i hbare
    simp only [hbare, not_false_eq_true, true_and]
    cases hhost : readHost (splitHost false hostPort).1 with
    | error fault => simp
    | ok named =>
        cases hport : readPort (((splitHost false hostPort).2.drop 1).takeWhile (· ≠ '\\')) with
        | error fault =>
            cases named with
            | none => by_cases hafter : (splitHost false hostPort).2 = [] <;> simp [hafter]
            | some host => simp
        | ok port =>
            cases named with
            | none => by_cases hafter : (splitHost false hostPort).2 = [] <;> simp [hafter]
            | some host =>
                constructor
                · intro h
                  exact ⟨host, port, rfl, rfl, (Except.ok.inj h).symm⟩
                · rintro ⟨_, _, hsome, hok, rfl⟩
                  cases hsome
                  cases hok
                  rfl

/-- Text without user information gives neither user nor password. -/
theorem splitCredentials_nil : splitCredentials [] = ([], []) := rfl

/-- A text is read the same without its user information, but for the user and the password. -/
theorem Parts.read_withoutUserInfo {cs : List Char} {p : Parts} (h : Parts.read cs = .ok p) :
    Parts.read (withoutUserInfo cs) = .ok { p with user := [], password := [] } := by
  obtain ⟨hnot, hself⟩ | ⟨info, hcs, hinfo, hnot⟩ := userInfo_cases cs
  · have hcut : (Text.splitLast '@' (cs.takeWhile (! endsAuthority ·))).getD
        ([], cs.takeWhile (! endsAuthority ·)) = ([], cs.takeWhile (! endsAuthority ·)) := by
      rw [Text.splitLast_eq_none hnot, Option.getD_none]
    obtain ⟨-, host, port, -, -, rfl⟩ := (Parts.read_eq_ok_iff hcut).mp h
    rw [hself, h, splitCredentials_nil]
  · -- Both texts have one host, one port and one rest; only the user information differs.
    generalize withoutUserInfo cs = left at hcs hnot ⊢
    subst hcs
    have hauthority : (info ++ '@' :: left).takeWhile (! endsAuthority ·)
        = info ++ '@' :: left.takeWhile (! endsAuthority ·) := by
      rw [takeWhile_authority hinfo]; simp [endsAuthority]
    have hbehind : behindAuthority (info ++ '@' :: left) = behindAuthority left := by
      rw [behindAuthority_append hinfo]; simp [behindAuthority, endsAuthority]
    have hnone := Text.splitLast_eq_none hnot
    have hcut : (Text.splitLast '@' ((info ++ '@' :: left).takeWhile (! endsAuthority ·))).getD
        ([], (info ++ '@' :: left).takeWhile (! endsAuthority ·))
        = (info, left.takeWhile (! endsAuthority ·)) := by
      rw [hauthority, Text.splitLast_append_cons info hnot, Option.getD_some]
    obtain ⟨-, host, port, hhost, hport, rfl⟩ := (Parts.read_eq_ok_iff hcut).mp h
    have hcut' : (Text.splitLast '@' (left.takeWhile (! endsAuthority ·))).getD
        ([], left.takeWhile (! endsAuthority ·)) = ([], left.takeWhile (! endsAuthority ·)) := by
      rw [hnone, Option.getD_none]
    refine (Parts.read_eq_ok_iff hcut').mpr ⟨fun hbare => hbare.2.2.1 hbare.2.1, host, port, hhost,
      hport, ?_⟩
    rw [splitCredentials_nil, hbehind]

/-- No credential is read from no text. -/
theorem readCredential_nil : readCredential [] = .ok none := by rfl

/-- A URI with such a scheme is read behind it. -/
theorem Address.read_ofList {scheme : List Char} (hscheme : IsRedisScheme scheme)
    (rest : List Char) :
    Address.read (String.ofList (scheme ++ schemeMark ++ rest)) = (do
      let parts ← Parts.read (significantEnd rest)
      let database ← readDatabase parts.path
      let user ← readCredential parts.user
      let password ← readCredential parts.password
      return {
        scheme := String.ofList scheme
        user, password, host := parts.host
        port := parts.port.getD defaultPort
        database }) := by
  have hcut : Text.splitFirst schemeMark (scheme ++ schemeMark ++ significantEnd rest)
      = some (scheme, significantEnd rest) := by
    obtain rfl | rfl := hscheme <;> simp [schemeMark, Text.splitFirst, List.isPrefixOf]
  rw [Address.read, String.toList_ofList, significant_append hscheme]
  simp only [schemeMark] at hcut ⊢
  rw [hcut]

/-- What it takes for a URI to be read as an address. -/
theorem Address.read_eq_ok_iff {scheme rest : List Char} {a : Address}
    (hscheme : IsRedisScheme scheme) :
    Address.read (String.ofList (scheme ++ schemeMark ++ rest)) = .ok a ↔
      ∃ parts, Parts.read (significantEnd rest) = .ok parts ∧
        readDatabase parts.path = .ok a.database ∧ readCredential parts.user = .ok a.user ∧
        readCredential parts.password = .ok a.password ∧ a.scheme = String.ofList scheme ∧
        a.host = parts.host ∧ a.port = parts.port.getD defaultPort := by
  rw [Address.read_ofList hscheme]
  constructor
  · intro h
    cases hparts : Parts.read (significantEnd rest) with
    | error fault => rw [hparts] at h; cases h
    | ok parts =>
        rw [hparts] at h
        simp only [bind, Except.bind, pure, Except.pure] at h
        cases hdatabase : readDatabase parts.path with
        | error fault => simp [hdatabase] at h
        | ok database =>
            cases huser : readCredential parts.user with
            | error fault => simp [hdatabase, huser] at h
            | ok user =>
                cases hpassword : readCredential parts.password with
                | error fault => simp [hdatabase, huser, hpassword] at h
                | ok password =>
                    simp only [hdatabase, huser, hpassword, Except.ok.injEq] at h
                    subst h
                    exact ⟨parts, rfl, hdatabase, huser, hpassword, rfl, rfl, rfl⟩
  · rintro ⟨parts, hparts, hdatabase, huser, hpassword, hname, hhost, hport⟩
    rw [hparts]
    simp only [bind, Except.bind, pure, Except.pure, hdatabase, huser, hpassword, ← hname, ← hhost,
      ← hport]

/-- A URI without its user information gives the same address without user and password. -/
theorem Address.read_withoutUserInfo {scheme rest : List Char} {a : Address}
    (hscheme : IsRedisScheme scheme)
    (h : Address.read (String.ofList (scheme ++ schemeMark ++ rest)) = .ok a) :
    Address.read (String.ofList (scheme ++ schemeMark ++ withoutUserInfo rest))
      = .ok { a with user := none, password := none } := by
  obtain ⟨parts, hparts, hdatabase, -, -, hname, hhost, hport⟩ := (read_eq_ok_iff hscheme).mp h
  refine (read_eq_ok_iff hscheme).mpr ⟨{ parts with user := [], password := [] }, ?_, hdatabase,
    readCredential_nil, readCredential_nil, hname, hhost, hport⟩
  rw [← withoutUserInfo_significantEnd, Parts.read_withoutUserInfo hparts]

/-! ## What a store shows -/

/-- With no `@` behind the authority the endpoint is the URI without its user information. -/
theorem redactChars_of_not_mem {uri scheme rest : List Char}
    (huri : Text.splitFirst schemeMark uri = some (scheme, rest))
    (h : '@' ∉ behindAuthority rest) :
    redactChars uri = scheme ++ schemeMark ++ withoutUserInfo rest := by
  have hcut := Text.splitLast_append_of_not_mem (rest.takeWhile (! endsAuthority ·)) h
  rw [authority_append] at hcut
  simp only [redactChars, huri, hcut, withoutUserInfo]
  cases Text.splitLast '@' (rest.takeWhile (! endsAuthority ·)) with
  | none =>
      simp only [Option.map_none, Option.getD_none, authority_append]
      exact Text.eq_append_of_splitFirst huri
  | some cut => rfl

/-- With an `@` behind the authority the endpoint shows what follows the last of them. -/
theorem redactChars_of_splitLast {uri scheme rest before after : List Char}
    (huri : Text.splitFirst schemeMark uri = some (scheme, rest))
    (h : Text.splitLast '@' (behindAuthority rest) = some (before, after)) :
    redactChars uri = scheme ++ schemeMark ++ after := by
  have hcut := Text.splitLast_append_of_splitLast (rest.takeWhile (! endsAuthority ·)) h
  rw [authority_append] at hcut
  simp only [redactChars, huri, hcut]

/-- Where there is an `@` behind the authority, the endpoint is not the URI without its user
information: it is shorter. -/
theorem redactChars_ne_of_mem {uri scheme rest : List Char}
    (huri : Text.splitFirst schemeMark uri = some (scheme, rest))
    (h : '@' ∈ behindAuthority rest) :
    redactChars uri ≠ scheme ++ schemeMark ++ withoutUserInfo rest := by
  cases hcut : Text.splitLast '@' (behindAuthority rest) with
  | none => exact absurd h (Text.not_mem_of_splitLast_eq_none hcut)
  | some cut =>
      obtain ⟨before, after⟩ := cut
      rw [redactChars_of_splitLast huri hcut]
      intro heq
      have hafter : after = withoutUserInfo rest := List.append_cancel_left heq
      have hlength : (withoutUserInfo rest).length ≥ (behindAuthority rest).length := by
        simp [withoutUserInfo]
      rw [(Text.eq_append_of_splitLast hcut).1, ← hafter] at hlength
      simp at hlength
      omega

namespace Store

/-- The URI of a Redis backend begins with one of its schemes. -/
theorem exists_scheme_of_backendKind {c : Config} (h : c.backendKind = .ok .redis) :
    ∃ scheme rest, Text.splitFirst schemeMark c.uri.toList = some (scheme, rest)
      ∧ IsRedisScheme scheme := by
  obtain ⟨name, hname, hkind⟩ := Config.backendKind_eq_ok_iff.mp h
  obtain ⟨-, rest, hcut⟩ := Config.scheme_eq_ok_iff.mp hname
  refine ⟨name.toList, rest, hcut, ?_⟩
  obtain rfl | rfl := Config.kindOfScheme_eq_redis_iff.mp hkind
  · exact .inl rfl
  · exact .inr rfl

/-- A store that is built from a configuration has the address that its URI gives, and shows the URI
as its endpoint. -/
theorem of_ofConfig {c : Config} {network : Network} {s : Store}
    (h : ofConfig c network = .ok s) :
    c.backendKind = .ok .redis ∧ Address.read c.uri = .ok s.address ∧ s.endpoint = redact c.uri := by
  unfold ofConfig at h
  split at h
  · cases h
  · cases h
  · cases h
  · rename_i hkind
    split at h
    · cases h
    · rename_i address hread
      cases h
      exact ⟨hkind, hread, rfl⟩

/-- What it takes for a store to be built. -/
theorem ofConfig_eq_ok {c : Config} {a : Address} (network : Network) (hcheck : c.check = .ok ())
    (hkind : c.backendKind = .ok .redis) (hread : Address.read c.uri = .ok a) :
    ofConfig c network
      = .ok { address := a, endpoint := redact c.uri, opTimeout := c.opTimeout, network } := by
  rw [ofConfig, hcheck, hkind]
  simp only [hread]

/-- **The endpoint drops the user information and nothing else, exactly where no `@` stands behind
the authority.** The URI of every store that is built is a scheme and a rest of which the client
reads the address of the store. If no slash, question mark or number sign of the rest has an `@`
behind it, then the endpoint is the URI without user name, password and the `@` that ends them, and
the client reads there the same scheme, host, port and database and no user or password. Otherwise
it is never that text: host and port are gone with all else up to the last `@`. In either case
nothing of the user information is shown. -/
theorem endpoint_iff {c : Config} {network : Network} {s : Store}
    (h : ofConfig c network = .ok s) :
    ∃ scheme rest, Text.splitFirst schemeMark c.uri.toList = some (scheme, rest)
      ∧ IsRedisScheme scheme
      ∧ Address.read c.uri = .ok s.address
      ∧ (s.endpoint = String.ofList (scheme ++ schemeMark ++ withoutUserInfo rest)
          ↔ '@' ∉ behindAuthority rest)
      ∧ ('@' ∉ behindAuthority rest →
          Address.read s.endpoint = .ok { s.address with user := none, password := none })
      ∧ (∀ before after, Text.splitLast '@' (behindAuthority rest) = some (before, after) →
          s.endpoint = String.ofList (scheme ++ schemeMark ++ after))
      ∧ ∃ shown, shown <:+ withoutUserInfo rest
          ∧ s.endpoint = String.ofList (scheme ++ schemeMark ++ shown) := by
  obtain ⟨hkind, hread, hendpoint⟩ := of_ofConfig h
  obtain ⟨scheme, rest, hcut, hscheme⟩ := exists_scheme_of_backendKind hkind
  have hshown : '@' ∉ behindAuthority rest →
      s.endpoint = String.ofList (scheme ++ schemeMark ++ withoutUserInfo rest) := by
    intro hnot
    rw [hendpoint, redact, redactChars_of_not_mem hcut hnot]
  have hcutOff (before after : List Char)
      (hlast : Text.splitLast '@' (behindAuthority rest) = some (before, after)) :
      s.endpoint = String.ofList (scheme ++ schemeMark ++ after) := by
    rw [hendpoint, redact, redactChars_of_splitLast hcut hlast]
  refine ⟨scheme, rest, hcut, hscheme, hread, ⟨?_, hshown⟩, ?_, hcutOff, ?_⟩
  · intro heq hmem
    rw [hendpoint, redact] at heq
    exact redactChars_ne_of_mem hcut hmem (String.ofList_injective heq)
  · intro hnot
    rw [hshown hnot]
    have huri : c.uri = String.ofList (scheme ++ schemeMark ++ rest) := by
      rw [← Text.eq_append_of_splitFirst hcut, String.ofList_toList]
    rw [huri] at hread
    exact Address.read_withoutUserInfo hscheme hread
  · cases hlast : Text.splitLast '@' (behindAuthority rest) with
    | none =>
        exact ⟨_, List.suffix_refl _, hshown (Text.not_mem_of_splitLast_eq_none hlast)⟩
    | some cut =>
        obtain ⟨before, after⟩ := cut
        refine ⟨after, ?_, hcutOff before after hlast⟩
        have hbehind : after <:+ behindAuthority rest :=
          ⟨before ++ ['@'], by simp [(Text.eq_append_of_splitLast hlast).1]⟩
        exact hbehind.trans (List.suffix_append _ _)

/-- User name and password, one with an `@` of its own, are gone; the rest is as it was. -/
theorem endpoint_iff_cache :
    ∃ s, ofConfig { uri := "redis://me:p@ss@cache:6380/2?a=1", defaultTtl := .ofSeconds 30 } {} = .ok s
      ∧ s.address = ⟨"redis", some "me", some "p@ss", .named "cache", 6380, some 2⟩
      ∧ s.endpoint = "redis://cache:6380/2?a=1"
      ∧ Address.read s.endpoint = .ok ⟨"redis", none, none, .named "cache", 6380, some 2⟩ := by
  have hbuilt := ofConfig_eq_ok
    (c := { uri := "redis://me:p@ss@cache:6380/2?a=1", defaultTtl := .ofSeconds 30 })
    (a := ⟨"redis", some "me", some "p@ss", .named "cache", 6380, some 2⟩) {}
    (by decide +kernel) (by decide +kernel) (by decide +kernel)
  refine ⟨_, hbuilt, rfl, ?_⟩
  obtain ⟨scheme, rest, hcut, -, -, hiff, hread, -, -⟩ := endpoint_iff hbuilt
  have hparts : Text.splitFirst schemeMark "redis://me:p@ss@cache:6380/2?a=1".toList
      = some ("redis".toList, "me:p@ss@cache:6380/2?a=1".toList) := by decide +kernel
  obtain ⟨rfl, rfl⟩ := Prod.mk.inj (Option.some.inj (hcut.symm.trans hparts))
  have hnot : '@' ∉ behindAuthority "me:p@ss@cache:6380/2?a=1".toList := by decide +kernel
  exact ⟨(hiff.mpr hnot).trans (by decide +kernel), hread hnot⟩

/-- An `@` in a query: the client talks to the server on `h`, and the endpoint is that of `b`. -/
theorem endpoint_names_other_host :
    ∃ s, ofConfig { uri := "redis://h:6379/0?x=a@b", defaultTtl := .ofSeconds 30 } {} = .ok s
      ∧ s.address = ⟨"redis", none, none, .named "h", 6379, some 0⟩
      ∧ s.endpoint = "redis://b"
      ∧ Address.read s.endpoint = .ok ⟨"redis", none, none, .named "b", 6379, none⟩ :=
  ⟨_, ofConfig_eq_ok {} (by decide +kernel) (by decide +kernel)
    (show Address.read "redis://h:6379/0?x=a@b"
      = .ok ⟨"redis", none, none, .named "h", 6379, some 0⟩ by decide +kernel),
    rfl, by decide +kernel, by decide +kernel⟩

end Store

end Redis
end KeyLease
