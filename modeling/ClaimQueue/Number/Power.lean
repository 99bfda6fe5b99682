/-! Powers are those of the core library in every module, also where others are at hand. -/

attribute [instance (high), default_instance 20000] instPowNat
