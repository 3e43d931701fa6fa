/-!
# Powers

A power of a natural or an integer is the core library's, in every module: where monoids are in
scope as well, they give a second instance, and a statement would depend on what is imported.
-/

attribute [instance (2000), default_instance 20000] instPowNat
