import Sharerr.Accounts.Model

/-!
# The sign-in and account pages

The handlers of `web/auth.rs` and `web/two_factor.rs` over the calls of the
model, with the store's functions they use.  A cookie is the token it carries,
if the request has one.
-/

namespace Sharerr

namespace Accounts

open Process (Prog)

/-- `validate_name` with the texts of `validate_username`. -/
def validateUsername (username : String) : Except AccountError String :=
  let trimmed := Rust.trim username
  if trimmed = "" then .error (.invalidUser "username must not be blank")
  else if trimmed.length > 64 then
    .error (.invalidUser "username must be 64 characters or fewer")
  else .ok trimmed

def validatePassword (password : String) : Except AccountError Unit :=
  if password = "" then .error (.invalidUser "password must not be empty")
  else .ok ()

def createUser (username password : String) :
    Program (Except AccountError Unit) :=
  Prog.proceed (validateUsername username) fun username =>
    Prog.proceed (validatePassword password) fun _ =>
      .call (.hashPassword password) fun
        | .error reason => .done (.error reason)
        | .ok hash => .call (.insertUser username hash) .done

def verifyPassword (username password : String) :
    Program (Except AccountError Bool) :=
  .call (.selectPasswordHash username) fun
    | .error reason => .done (.error reason)
    | .ok stored =>
      .call (.verifyHash password stored) fun
        | .error reason => .done (.error reason)
        | .ok verified => .done (.ok (verified && stored.isSome))

def setPassword (username password : String) :
    Program (Except AccountError Bool) :=
  Prog.proceed (validatePassword password) fun _ =>
    .call (.hashPassword password) fun
      | .error reason => .done (.error reason)
      | .ok hash => .call (.updatePassword username hash) .done

inductive Response where
  | redirect (location : String)
  /-- A redirect with the session cookie. -/
  | signedIn (token location : String)
  /-- A redirect to the code page with the pending cookie. -/
  | parked (token : String)
  | setupRejected (username message : String)
  | loginRejected (username message : String)
  /-- The login page again, with the pending cookie dropped. -/
  | signInAgain (username message : String)
  | codeRejected (message : String)
  | settingsRejected (message : String)
  | enrolAgain (secret message : String)
  | stillEnabled (message : String)
  | tooBusy
  | internal (reason : String)
  | unavailable (reason : String)
deriving DecidableEq, Repr

def Response.isSignedIn : Response → Bool
  | signedIn _ _ => true
  | _ => false

/-- `store_or_503`. -/
def storeOr503 (rest : Program Response) : Program Response :=
  .call .openStore fun
    | .error reason => .done (.unavailable reason)
    | .ok _ => rest

def minPasswordLen : Nat := 8

def passwordRejection (password confirm : String) : Option String :=
  if password ≠ confirm then some "Those passwords do not match."
  else if password.length < minPasswordLen then
    some s!"Password must be at least {minPasswordLen} characters."
  else none

/-- `current_user`, for a request with this session cookie. -/
def currentUser (cookie : Option String)
    (rest : Option (String × String) → Program Response) :
    Program Response :=
  match cookie with
  | none => rest none
  | some token =>
    .call (.touchSession token) fun (_, username) =>
      rest (username.map (token, ·))

def signIn (username destination : String) : Program Response :=
  .call (.createSession username) fun
    | (_, .ok token) => .done (.signedIn token destination)
    | (_, .error reason) => .done (.internal reason)

/-- `password_ok`. -/
def passwordOk (username password : String)
    (rest : Bool → Program Response) : Program Response :=
  (verifyPassword username password).bind fun
    | .ok verified => rest verified
    | .error .tooBusy => .done .tooBusy
    | .error reason =>
      .done (.internal ("checking the password: " ++ reason.text))

structure SetupForm where
  username : String
  password : String
  confirm : String
deriving DecidableEq, Repr

structure LoginForm where
  username : String
  password : String
deriving DecidableEq, Repr

structure ChangePasswordForm where
  currentPassword : String
  newPassword : String
  confirmPassword : String
deriving DecidableEq, Repr

/-- The first account, which only an empty table has room for. -/
def setupSubmit (form : SetupForm) : Program Response :=
  match passwordRejection form.password form.confirm with
  | some message => .done (.setupRejected form.username message)
  | none =>
    storeOr503 <|
      .call .userCount fun
        | .error reason =>
          .done (.internal ("reading accounts: " ++ reason.text))
        | .ok (_ + 1) => .done (.redirect "/login")
        | .ok 0 =>
          (createUser form.username form.password).bind fun
            | .ok _ => signIn form.username "/wizard"
            | .error (.invalidUser message) =>
              .done (.setupRejected form.username message)
            | .error (.userExists _) => .done (.redirect "/login")
            | .error .tooBusy => .done .tooBusy
            | .error reason =>
              .done (.internal
                ("creating the account: " ++ reason.text))

/-- `two_factor::begin`. -/
def beginCode (username : String) : Program Response :=
  .call (.beginSecondFactor username) fun
    | (_, .ok token) => .done (.parked token)
    | (_, .error reason) => .done (.internal reason)

/-- The password first; an account with a secret goes on to the code. -/
def loginSubmit (form : LoginForm) : Program Response :=
  storeOr503 <|
    (verifyPassword form.username form.password).bind fun
      | .ok true =>
        .call (.selectTotpSecret form.username) fun
          | .ok none => signIn form.username "/"
          | .ok (some _) => beginCode form.username
          | .error reason =>
            .done (.internal ("reading the account: " ++ reason.text))
      | .ok false =>
        .done (.loginRejected form.username
          "That username and password do not match.")
      | .error .tooBusy => .done .tooBusy
      | .error reason =>
        .done (.internal ("checking the password: " ++ reason.text))

/-- Every other session ends with the old password. -/
def changePassword (cookie : Option String) (form : ChangePasswordForm) :
    Program Response :=
  currentUser cookie fun
    | none => .done (.redirect "/login")
    | some (token, username) =>
      match passwordRejection form.newPassword form.confirmPassword with
      | some message => .done (.settingsRejected message)
      | none =>
        storeOr503 <|
          passwordOk username form.currentPassword fun
            | false =>
              .done (.settingsRejected
                "That is not your current password.")
            | true =>
              (setPassword username form.newPassword).bind fun
                | .ok true =>
                  .call (.revokeAllExcept token) fun _ =>
                    .done (.redirect "/settings?saved=account")
                | .ok false =>
                  .done (.settingsRejected
                    "That account no longer exists.")
                | .error (.invalidUser message) =>
                  .done (.settingsRejected message)
                | .error .tooBusy => .done .tooBusy
                | .error reason =>
                  .done (.internal
                    ("changing the password: " ++ reason.text))

structure EnableForm where
  secret : String
  code : String
  currentPassword : String
deriving DecidableEq, Repr

structure DisableForm where
  code : String
  currentPassword : String
deriving DecidableEq, Repr

section Codes

variable (primitives : Primitives)

/-- Whether a code is current for the account's secret, spending its step if
so. -/
def checkCode (username code : String) :
    Program (Except AccountError Bool) :=
  .call (.selectTotpSecret username) fun
    | .error reason => .done (.error reason)
    | .ok none => .done (.ok false)
    | .ok (some secret) =>
      .call .nowEpoch fun now =>
        match Totp.verify primitives.hotp secret code now with
        | some step => .call (.claimTotpStep username step) .done
        | none => .done (.ok false)

/-- `two_factor::login_submit`, for a request with this pending cookie. -/
def codeSubmit (cookie : Option String) (code : String) : Program Response :=
  match cookie with
  | none => .done (.redirect "/login")
  | some token =>
    .call (.pendingUser token) fun
      | (_, none) => .done (.redirect "/login")
      | (_, some username) =>
        storeOr503 <|
          (checkCode primitives username code).bind fun
            | .ok true =>
              .call (.finishSecondFactor token) fun _ =>
                signIn username "/"
            | .ok false =>
              .call (.failSecondFactor token) fun
                | true => .done (.codeRejected "That code is not valid.")
                | false =>
                  .done (.signInAgain username
                    "Too many wrong codes. Sign in again.")
            | .error reason =>
              .done (.internal ("checking the code: " ++ reason.text))

/-- A proven secret is stored, and the code that proved it is spent at once. -/
def enable (cookie : Option String) (form : EnableForm) : Program Response :=
  currentUser cookie fun
    | none => .done (.redirect "/login")
    | some (token, username) =>
      storeOr503 <|
        if ¬ Totp.isValidSecret form.secret then
          .done (.redirect "/settings/account/totp")
        else
          passwordOk username form.currentPassword fun
            | false =>
              .done (.enrolAgain form.secret
                "That is not your current password.")
            | true =>
              .call .nowEpoch fun now =>
                match Totp.verify primitives.hotp form.secret form.code
                    now with
                | none =>
                  .done (.enrolAgain form.secret
                    ("That code does not match. Check the phone's " ++
                      "clock and try the next one."))
                | some step =>
                  .call (.setTotpSecret username (some form.secret)) fun
                    | .ok true =>
                      .call (.claimTotpStep username step) fun
                        | .ok _ =>
                          .call (.revokeAllExcept token) fun _ =>
                            .done (.redirect
                              "/settings/account/totp?saved=on")
                        | .error reason =>
                          .done (.internal
                            ("saving the secret: " ++ reason.text))
                    | .ok false =>
                      .done (.internal "that account no longer exists")
                    | .error reason =>
                      .done (.internal
                        ("saving the secret: " ++ reason.text))

/-- Turning the second factor off takes the password and a fresh code. -/
def disable (cookie : Option String) (form : DisableForm) :
    Program Response :=
  currentUser cookie fun
    | none => .done (.redirect "/login")
    | some (_, username) =>
      storeOr503 <|
        passwordOk username form.currentPassword fun
          | false =>
            .done (.stillEnabled "That is not your current password.")
          | true =>
            (checkCode primitives username form.code).bind fun
              | .ok true =>
                .call (.setTotpSecret username none) fun
                  | .ok _ =>
                    .done (.redirect
                      "/settings/account/totp?saved=off")
                  | .error reason =>
                    .done (.internal
                      ("clearing the secret: " ++ reason.text))
              | .ok false =>
                .done (.stillEnabled "That code is not valid.")
              | .error reason =>
                .done (.internal ("checking the code: " ++ reason.text))

/-- The requests that change accounts or sessions. -/
inductive Job where
  | setup (form : SetupForm)
  | login (form : LoginForm)
  | code (cookie : Option String) (typed : String)
  | changePassword (cookie : Option String) (form : ChangePasswordForm)
  | enable (cookie : Option String) (form : EnableForm)
  | disable (cookie : Option String) (form : DisableForm)
  | idle
deriving DecidableEq

def Job.program : Job → Program Response
  | .setup form => setupSubmit form
  | .login form => loginSubmit form
  | .code cookie typed => codeSubmit primitives cookie typed
  | .changePassword cookie form => Accounts.changePassword cookie form
  | .enable cookie form => Accounts.enable primitives cookie form
  | .disable cookie form => Accounts.disable primitives cookie form
  | .idle => .done (.redirect "")

def pool (world : World) (jobs : Nat → Job) :
    Process.Pool Nat World Call Answer Response where
  world
  threads thread := (jobs thread).program primitives

end Codes

/-- The values of RFC 4226 for the key `12345678901234567890`. -/
def knownValues : List Nat :=
  [1284755224, 1094287082, 137359152, 1726969429, 1640338314, 868254676,
    1918287922, 82162583, 673399871, 645520489]

/-- Hashes that show their password, and the codes of one key. -/
def plainPrimitives : Primitives where
  verifies password hash := hash = "$" ++ password
  hotp _ counter := knownValues.getD counter 0

/-- An instance that nobody has claimed. -/
def unclaimed : World :=
  ⟨.empty, fun _ => none, fun _ => none, []⟩

/-- A setup that goes through, up to its session. -/
def createsAccount (thread : Nat) (username password : String) :
    List Event :=
  [⟨thread, .hashPassword password, .ok ("$" ++ password)⟩,
    ⟨thread, .insertUser username ("$" ++ password), .ok ()⟩]

def startsSetup (thread : Nat) : List Event :=
  [⟨thread, .openStore, .ok ()⟩, ⟨thread, .userCount, .ok 0⟩]

/-- The key of these values. -/
def knownSecret : String := "GEZDGNBVGY3TQOJQGEZDGNBVGY3TQOJQ"

def knownPassword : String := "correct horse"

/-- An instance whose owner sam is signed in. -/
def claimedBySam (secret : Option String) : World where
  users := ⟨[⟨"sam", "$" ++ knownPassword, secret, none⟩], by simp⟩
  sessions := fun token => if token = "cookie" then some ⟨"sam", 0⟩ else none
  pending := fun _ => none
  drawn := ["cookie"]

/-- A password that is right. -/
def checksPassword (thread : Nat) : List Event :=
  [⟨thread, .openStore, .ok ()⟩,
    ⟨thread, .selectPasswordHash "sam", .ok (some ("$" ++ knownPassword))⟩,
    ⟨thread, .verifyHash knownPassword (some ("$" ++ knownPassword)),
      .ok true⟩]

/-- An enabling up to its secret. -/
def startsEnabling (thread : Nat) : List Event :=
  ⟨thread, .touchSession "cookie", (0, some "sam")⟩ ::
    checksPassword thread ++
    [⟨thread, .nowEpoch, (30 : Int)⟩,
      ⟨thread, .setTotpSecret "sam" (some knownSecret), .ok true⟩]

def endsEnabling (thread : Nat) (claimed : Bool) : List Event :=
  [⟨thread, .claimTotpStep "sam" 1, .ok claimed⟩,
    ⟨thread, .revokeAllExcept "cookie", ()⟩]

/-- A login that has to wait for a code. -/
def parks (thread : Nat) : List Event :=
  checksPassword thread ++
    [⟨thread, .selectTotpSecret "sam", .ok (some knownSecret)⟩,
      ⟨thread, .beginSecondFactor "sam", (0, .ok "parked")⟩]

/-- A code submission up to the claim of its step. -/
def startsCode (thread : Nat) (now : Int) : List Event :=
  [⟨thread, .pendingUser "parked", (0, some "sam")⟩,
    ⟨thread, .openStore, .ok ()⟩,
    ⟨thread, .selectTotpSecret "sam", .ok (some knownSecret)⟩,
    ⟨thread, .nowEpoch, now⟩]

def endsCode (thread : Nat) (token : String) : List Event :=
  [⟨thread, .finishSecondFactor "parked", ()⟩,
    ⟨thread, .createSession "sam", (0, .ok token)⟩]

end Accounts

end Sharerr
