import ChatLab.Domain

/-!
# Session tokens

The token library is seen through two functions that close over the signing
key: one signs claims, the other parses a token against the current time.
Dates in claims are whole seconds.
-/

namespace ChatLab.Auth

structure CustomClaims where
  userID : String
  roles : List String
  expiresAt : Int
  issuedAt : Int
  issuer : String
deriving DecidableEq, Repr

/-- What `ParseWithClaims` returns without an error. -/
structure ParsedToken where
  claims : CustomClaims
  valid : Bool

def numericDate (t : Int) : Int := t / 1000000000

/-- `now` is the clock, which the source reads twice: for the expiry and for
the issue date. -/
def tokenClaims (userID : String) (roles : List String) (authTokenDuration : Int)
    (now later : Int) : CustomClaims where
  userID := userID
  roles := roles
  expiresAt := numericDate (now + authTokenDuration)
  issuedAt := numericDate later
  issuer := "chat-lab"

section Jwt

variable (signedString : CustomClaims → Except String String)
  (parseWithClaims : String → Except String ParsedToken)

def generateToken (userID : String) (roles : List String) (authTokenDuration : Int)
    (now later : Int) : Except String String :=
  signedString (tokenClaims userID roles authTokenDuration now later)

def validateToken (tokenString : String) : Except String CustomClaims :=
  match parseWithClaims tokenString with
  | .error e => .error e
  | .ok token => if token.valid then .ok token.claims else .error "signature is invalid"

end Jwt

end ChatLab.Auth
